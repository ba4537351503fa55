import StaticTyping.Json.Basic
import StaticTyping.Json.Numeral

/-!
# Records in documents

A record with named fields is written as an object, or as an array of its fields in order.  In an
object unknown keys are passed over, every key has to stand for a text, and a field may be given
once only.
-/

namespace StaticTyping
namespace Json

def text? : Json → Option String
  | .str text => text
  | _ => none

def natBelow? (bound : Nat) : Json → Option Nat
  | .num digits => (natural? digits).filter (· < bound)
  | _ => none

def items? : Json → Option (List Json)
  | .arr items => some items
  | _ => none

def valuesOf (members : List Member) (name : String) : List Json :=
  (members.filter fun m => m.key == some name).map (·.value)

def field? (members : List Member) (name : String) : Option (Option Json) :=
  match valuesOf members name with
  | [] => some none
  | [v] => some (some v)
  | _ => none

def fields? (names : List String) : Json → Option (List (Option Json))
  | .obj members =>
      if members.all (·.key.isSome) then names.mapM (field? members) else none
  | .arr items => if items.length = names.length then some (items.map some) else none
  | _ => none

def fieldsOrFewer? (names : List String) : Json → Option (List (Option Json))
  | .arr items =>
      if items.length ≤ names.length then
        some (items.map some ++ List.replicate (names.length - items.length) none)
      else none
  | v => fields? names v

end Json
end StaticTyping
