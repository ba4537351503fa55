import StaticTyping.Diagnostic.Batch
import StaticTyping.Json.Record
import StaticTyping.Json.Reader
import StaticTyping.Json.Printer

/-!
# Settings of a session

Where packages are looked for, how many diagnostics a batch keeps, and the namespace of the
builtin functions.  A document of settings may leave out any of them.
-/

namespace StaticTyping

/-- The choices that hold for a whole session. -/
structure Settings where
  sourceRoot : String := "src"
  maxErrors : Nat := Batch.defaultLimit
  preludeSpace : String := "prelude"
deriving DecidableEq, Inhabited

namespace Settings

def dropSlashes (path : String) : String :=
  String.ofList (path.toList.reverse.dropWhile (· == '/')).reverse

/-- Where the files of a package are looked for. -/
def pathOf (s : Settings) (package : String) : String :=
  dropSlashes s.sourceRoot ++ "/" ++ package

def fieldNames : List String :=
  ["source_root", "max_errors", "prelude_namespace"]

def fieldOr {α : Type} (usual : α) (read : Json → Option α) : Option Json → Option α
  | none => some usual
  | some v => read v

def ofJson? (v : Json) : Option Settings :=
  match v.fieldsOrFewer? fieldNames with
  | some [root, limit, space] => do
      let root ← fieldOr ({} : Settings).sourceRoot Json.text? root
      let limit ← fieldOr ({} : Settings).maxErrors (Json.natBelow? UInt64.size) limit
      let space ← fieldOr ({} : Settings).preludeSpace Json.text? space
      pure ⟨root, limit, space⟩
  | _ => none

def read? (text : String) : Option Settings :=
  (Json.read? text).bind ofJson?

def toJson (s : Settings) : Json :=
  .ofFields
    [("source_root", .ofText s.sourceRoot),
      ("max_errors", .ofNat s.maxErrors),
      ("prelude_namespace", .ofText s.preludeSpace)]

def write (s : Settings) : String :=
  s.toJson.compact

end Settings
end StaticTyping
