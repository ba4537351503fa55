import StaticTyping.Diagnostic.Batch
import StaticTyping.Json.Record
import StaticTyping.Json.Reader
import StaticTyping.Json.Printer

/-!
# Diagnostics as documents

A diagnostic is a record of its fields; a suggestion that is absent is left out.  A batch is a
record of the diagnostics it kept and the number of all.  Its limit is not written, and a batch
that is read has the usual one.
-/

namespace StaticTyping

def Category.toJson (c : Category) : Json :=
  .ofText c.text

def Category.ofJson? : Json → Option Category
  | .str (some name) => ofText? name
  | .obj [⟨some name, .null⟩] => ofText? name
  | _ => none

namespace Diagnostic

def fieldNames : List String :=
  ["file", "code", "category", "message", "line", "suggestion"]

/-- A diagnostic as a document. -/
def toJson (d : Diagnostic) : Json :=
  .ofFields <|
    [("file", .ofText d.file),
      ("code", .ofNat d.code.number.toNat),
      ("category", d.category.toJson),
      ("message", .ofText d.message),
      ("line", .ofNat d.line.toNat)] ++
      (d.suggestion.map fun s => ("suggestion", Json.ofText s)).toList

def suggestionOfJson? : Option Json → Option (Option String)
  | none => some none
  | some .null => some none
  | some v => v.text?.map some

/-- The diagnostic that a document holds. -/
def ofJson? (v : Json) : Option Diagnostic :=
  match v.fields? fieldNames with
  | some [some file, some code, some category, some message, some line, suggestion] => do
      let file ← file.text?
      let code ← code.natBelow? UInt16.size
      let category ← Category.ofJson? category
      let message ← message.text?
      let line ← line.natBelow? UInt32.size
      let suggestion ← suggestionOfJson? suggestion
      pure ⟨file, ⟨code.toUInt16⟩, category, message, line.toUInt32, suggestion⟩
  | _ => none

/-- The compact written document of a diagnostic. -/
def write (d : Diagnostic) : String :=
  d.toJson.compact

/-- The diagnostic that a written document holds. -/
def read? (text : String) : Option Diagnostic :=
  (Json.read? text).bind ofJson?

end Diagnostic

namespace Batch

def fieldNames : List String :=
  ["errors", "total_errors"]

/-- A batch as a document. -/
def toJson (b : Batch) : Json :=
  .ofFields [("errors", .arr (b.errors.map Diagnostic.toJson)), ("total_errors", .ofNat b.total)]

/-- The batch that a document holds. -/
def ofJson? (v : Json) : Option Batch :=
  match v.fields? fieldNames with
  | some [some errors, some total] => do
      let items ← errors.items?
      let errors ← items.mapM Diagnostic.ofJson?
      let total ← total.natBelow? UInt64.size
      pure ⟨errors, total, defaultLimit⟩
  | _ => none

/-- The indented written document of a batch. -/
def write (b : Batch) : String :=
  b.toJson.pretty

/-- The batch that a written document holds. -/
def read? (text : String) : Option Batch :=
  (Json.read? text).bind ofJson?

end Batch
end StaticTyping
