/-!
# Diagnostics

A diagnostic says what is wrong, in which file and on which line, under a numbered code.  The
hundreds of the code give its category.
-/

namespace StaticTyping

/-- The kinds of mistakes that codes are grouped by. -/
inductive Category where
  | resolution
  | type
  | arity
  | structural
  | control
  | internal
deriving DecidableEq, Inhabited

namespace Category

def all : List Category :=
  [.resolution, .type, .arity, .structural, .control, .internal]

def text : Category → String
  | .resolution => "resolution"
  | .type => "type"
  | .arity => "arity"
  | .structural => "structure"
  | .control => "control"
  | .internal => "internal"

def ofText? (s : String) : Option Category :=
  all.find? (·.text == s)

end Category

structure Code where
  number : UInt16
deriving DecidableEq, Inhabited

namespace Code

def category (c : Code) : Category :=
  match c.number.toNat / 100 with
  | 1 => .resolution
  | 2 => .type
  | 3 => .arity
  | 4 => .structural
  | 5 => .control
  | _ => .internal

def text (c : Code) : String :=
  "E" ++ toString c.number.toNat

end Code

/-- One reported mistake. -/
structure Diagnostic where
  file : String
  code : Code
  category : Category
  message : String
  line : UInt32
  suggestion : Option String
deriving DecidableEq, Inhabited

namespace Diagnostic

def ofCode (file : String) (code : Code) (message : String) (line : UInt32)
    (suggestion : Option String) : Diagnostic :=
  ⟨file, code, code.category, message, line, suggestion⟩

def text (d : Diagnostic) : String :=
  "[" ++ d.file ++ " line " ++ toString d.line.toNat ++ "] " ++ d.message

end Diagnostic
end StaticTyping
