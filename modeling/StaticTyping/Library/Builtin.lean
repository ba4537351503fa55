import StaticTyping.SymbolTable

/-!
# Builtin functions

The functions that every module sees without an import.
-/

namespace StaticTyping

namespace Library

def sig (params : List (String × Ty)) (ret : Ty) : Signature :=
  ⟨params.map fun p => ⟨p.1, p.2, false, none⟩, ret⟩

def variadicSig (params : List (String × Ty)) (last : String × Ty) (ret : Ty) : Signature :=
  ⟨(sig params ret).params ++ [⟨last.1, last.2, true, none⟩], ret⟩

def function (name : String) (s : Signature) : NamedFunction :=
  ⟨name, .isPublic, s⟩

end Library

namespace Builtin

open Library

/-- The builtin functions. -/
def functions : List NamedFunction :=
  [function "print" (sig [("s", .string)] .nil),
    function "println" (sig [("s", .string)] .nil),
    function "printf" (variadicSig [("format", .string)] ("args", .any) .nil),
    function "to_string" (sig [("value", .any)] .string),
    function "err" (sig [("message", .string)] .error),
    function "exit" (sig [("code", .int)] .nil)]

def bindAll (t : SymbolTable) (space : String) : SymbolTable :=
  functions.foldl (fun t f => t.bind space f.name (.named f)) t

end Builtin
end StaticTyping
