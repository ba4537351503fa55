import StaticTyping.Ty.Text
import StaticTyping.Diagnostic.Basic

/-!
# Faults

A fault is a cause, found on a line.  The cause fixes the code, the message and the suggestion of
the diagnostic.
-/

namespace StaticTyping

/-- What can be wrong with a program. -/
inductive Cause where
  | unknownVariable (name : String)
  | unknownModule (package reason : String)
  | noAttribute (object member : String)
  | cyclicImport (package : String)
  | importFailed (package : String)
  | missingModuleName
  | unexpectedType (expected found : Ty)
  | typeMismatch (expected found : Ty)
  | notInitialized (name : String) (ty : Ty)
  | unaryOperand (op : UnaryOp) (operand : Ty)
  | incrementOf (found : Ty)
  | decrementOf (found : Ty)
  | defaultNotLiteral (param : String)
  | argumentCount (callee : String) (expected found : Nat)
  | argumentMissing (callee param : String)
  | argumentsMixed (callee : String)
  | argumentUnknown (callee name : String)
  | argumentRepeated (callee name : String)
  | methodMissing (className interface method : String)
  | implementsNonInterface (name : String)
  | notCallable (found : Ty)
  | notGettable (found : Ty) (member : String)
  | notSettable (found : Ty) (member : String)
  | notIndexable (found : Ty)
  | notSliceable (found : Ty)
  | notIterable (found : Ty)
  | notInterface (name : String)
  | misplacedBreak
  | misplacedContinue
  | misplacedYield
  | misplacedThis

namespace Cause

def code : Cause → Code
  | .unknownVariable _ => ⟨100⟩
  | .unknownModule _ _ => ⟨101⟩
  | .noAttribute _ _ => ⟨102⟩
  | .cyclicImport _ => ⟨103⟩
  | .importFailed _ => ⟨104⟩
  | .missingModuleName => ⟨105⟩
  | .unexpectedType _ _ => ⟨200⟩
  | .typeMismatch _ _ => ⟨201⟩
  | .notInitialized _ _ => ⟨202⟩
  | .unaryOperand _ _ => ⟨203⟩
  | .incrementOf _ => ⟨204⟩
  | .decrementOf _ => ⟨204⟩
  | .defaultNotLiteral _ => ⟨205⟩
  | .argumentCount _ _ _ => ⟨300⟩
  | .argumentMissing _ _ => ⟨301⟩
  | .argumentsMixed _ => ⟨302⟩
  | .argumentUnknown _ _ => ⟨303⟩
  | .argumentRepeated _ _ => ⟨304⟩
  | .methodMissing _ _ _ => ⟨400⟩
  | .implementsNonInterface _ => ⟨401⟩
  | .notCallable _ => ⟨402⟩
  | .notGettable _ _ => ⟨403⟩
  | .notSettable _ _ => ⟨404⟩
  | .notIndexable _ => ⟨405⟩
  | .notSliceable _ => ⟨406⟩
  | .notIterable _ => ⟨407⟩
  | .notInterface _ => ⟨408⟩
  | .misplacedBreak => ⟨500⟩
  | .misplacedContinue => ⟨501⟩
  | .misplacedYield => ⟨502⟩
  | .misplacedThis => ⟨503⟩

def quoted (name : String) : String :=
  "'" ++ name ++ "'"

def countText (n : Nat) : String :=
  toString n ++ (if n = 1 then " argument" else " arguments")

def message : Cause → String
  | .unknownVariable name => "unknown variable " ++ quoted name
  | .unknownModule package reason => "cannot resolve module " ++ quoted package ++ ": " ++ reason
  | .noAttribute object member => quoted object ++ " has no attribute " ++ quoted member
  | .cyclicImport package => "cyclic import of " ++ quoted package
  | .importFailed package => "imported module " ++ quoted package ++ " failed to type check"
  | .missingModuleName => "file does not declare its module with `mod`"
  | .unexpectedType expected found => "expected " ++ expected.text ++ ", found " ++ found.text
  | .typeMismatch expected found =>
      "type mismatch: expected " ++ expected.text ++ ", found " ++ found.text
  | .notInitialized name ty =>
      quoted name ++ " has type " ++ ty.text ++
        ", which has no default value, and must be initialized"
  | .unaryOperand op operand =>
      "operator " ++ quoted op.symbol ++ " cannot be applied to " ++ operand.text
  | .incrementOf found => "cannot increment a value of type " ++ found.text
  | .decrementOf found => "cannot decrement a value of type " ++ found.text
  | .defaultNotLiteral param =>
      "default value of parameter " ++ quoted param ++ " must be a literal"
  | .argumentCount callee expected found =>
      quoted callee ++ " expects " ++ countText expected ++ ", got " ++ toString found
  | .argumentMissing callee param =>
      "call to " ++ quoted callee ++ " must specify a value for " ++ quoted param ++
        ", which has no default"
  | .argumentsMixed callee => "call to " ++ quoted callee ++ " mixes named and positional arguments"
  | .argumentUnknown callee name => quoted callee ++ " has no parameter named " ++ quoted name
  | .argumentRepeated callee name =>
      quoted name ++ " is passed to " ++ quoted callee ++ " more than once"
  | .methodMissing className interface method =>
      "class " ++ quoted className ++ " does not implement method " ++ quoted method ++
        " of interface " ++ quoted interface
  | .implementsNonInterface name => quoted name ++ " is not an interface and cannot be implemented"
  | .notCallable found => "a value of type " ++ found.text ++ " cannot be called"
  | .notGettable found member =>
      "cannot get " ++ quoted member ++ " from a value of type " ++ found.text
  | .notSettable found member =>
      "cannot set " ++ quoted member ++ " on a value of type " ++ found.text
  | .notIndexable found => "a value of type " ++ found.text ++ " cannot be indexed"
  | .notSliceable found => "a value of type " ++ found.text ++ " cannot be sliced"
  | .notIterable found => "a value of type " ++ found.text ++ " cannot be iterated"
  | .notInterface name => quoted name ++ " is not an interface"
  | .misplacedBreak => "`break` is only valid directly inside a loop"
  | .misplacedContinue => "`continue` is only valid directly inside a loop"
  | .misplacedYield => "`yield` is only valid inside an if or block expression"
  | .misplacedThis => "`this` is only valid inside a class"

def suggestion? : Cause → Option String
  | .notInitialized _ _ => some "add an initializer to the declaration"
  | .argumentsMixed _ => some "pass either every argument by name or none of them"
  | .missingModuleName => some "start the file with `mod <name>`"
  | .misplacedYield =>
      some "`yield` produces the value of the enclosing if or block expression"
  | _ => none

end Cause

/-- A cause and the line it was found on. -/
structure Fault where
  cause : Cause
  line : UInt32

def Fault.diagnose (f : Fault) (file : String) : Diagnostic :=
  .ofCode file f.cause.code f.cause.message f.line f.cause.suggestion?

end StaticTyping
