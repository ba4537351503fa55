import StaticTyping.Ty.Basic

/-!
# What values of a type can do

Which types can be indexed, sliced, iterated and called, which have a value to start from, and
which have their methods in a standard package.
-/

namespace StaticTyping
namespace Ty

def isNumeric : Ty → Bool
  | .int | .float => true
  | _ => false

def isBool : Ty → Bool
  | .bool => true
  | _ => false

mutual

/-- Whether a name that is not looked up yet occurs in a type, at the places annotations can have
one. -/
def hasUnknown : Ty → Bool
  | .unknown _ => true
  | .list a => hasUnknown a
  | .map k v => hasUnknown k || hasUnknown v
  | .tuple items => anyHasUnknown items
  | .function ⟨ps, r⟩ => hasUnknown r || paramsHaveUnknown ps
  | _ => false
termination_by structural t => t

def anyHasUnknown : List Ty → Bool
  | [] => false
  | t :: ts => hasUnknown t || anyHasUnknown ts
termination_by structural ts => ts

def paramsHaveUnknown : List Param → Bool
  | [] => false
  | ⟨_, t, _, _⟩ :: ps => hasUnknown t || paramsHaveUnknown ps
termination_by structural ps => ps

end

/-- The standard package with the methods of a builtin type, and the name it is imported under. -/
def builtinPackage? : Ty → Option (String × String)
  | .string => some ("aura/strings", "strings")
  | .list _ => some ("aura/lists", "lists")
  | .error => some ("aura/errors", "errors")
  | _ => none

def indexTypes? : Ty → Option (Ty × Ty)
  | .list elem => some (.int, elem)
  | .string => some (.int, .char)
  | .map key value => some (key, value)
  | _ => none

def sliceBound? : Ty → Option Ty
  | .list _ | .string => some .int
  | _ => none

def element? : Ty → Option Ty
  | .list elem => some elem
  | .string => some .char
  | _ => none

def callSignature? : Ty → Option Signature
  | .named f => some f.sig
  | .function sig => some sig
  | .classTy c => some c.constructor
  | _ => none

def initial? (t : Ty) (span : Span) : Option Typed.Expr :=
  match t with
  | .int => some ⟨.int 0, t, span⟩
  | .float => some ⟨.float 0, t, span⟩
  | .bool => some ⟨.bool false, t, span⟩
  | .list _ => some ⟨.list [], t, span⟩
  | .map _ _ => some ⟨.map [], t, span⟩
  | _ => none

end Ty
end StaticTyping
