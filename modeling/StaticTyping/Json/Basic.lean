/-!
# JSON documents

A document is a tree of values.  Numbers keep the digits they were written with, so that `1`,
`1.0` and `1e0` stay different.  The text of a string is absent if its escapes name one half of a
surrogate pair without the other: such a string is well written but stands for no text.
-/

namespace StaticTyping

mutual

/-- A JSON value. -/
inductive Json where
  | null
  | bool (value : Bool)
  | num (digits : String)
  | str (text : Option String)
  | arr (items : List Json)
  | obj (members : List Json.Member)

/-- A key of an object with its value. -/
structure Json.Member where
  key : Option String
  value : Json

end

namespace Json

instance : Inhabited Json := ⟨.null⟩

def ofText (s : String) : Json :=
  .str (some s)

def ofNat (n : Nat) : Json :=
  .num (toString n)

def ofFields (fields : List (String × Json)) : Json :=
  .obj (fields.map fun field => ⟨some field.1, field.2⟩)

end Json
end StaticTyping
