import StaticTyping.Diagnostic.Document
import StaticTyping.Proofs.Json.RoundTrip

/-!
# Diagnostics survive their documents

A diagnostic is read back from its compact document, and a batch from its indented one, with the
same diagnostics in the same order and the same number of all.  The limit is not written, so a batch
that is read has the usual one.

Documents may be written and read by a library.  What is needed of it is that it writes them as the
printers of `Json` do, and that it reads what the reader of `Json` reads.
-/

namespace StaticTyping

/-!
# Libraries
-/

/-- A library that writes and reads documents. -/
structure Json.Codec where
  compact : Json → String
  pretty : Json → String
  read? : String → Option Json

/-- A library that follows the format: it writes as the printers do, and reads what the reader
reads.  Other texts it may read, too. -/
structure Json.Codec.Conforms (c : Json.Codec) : Prop where
  compact : ∀ v : Json, v.writable → c.compact v = v.compact
  pretty : ∀ v : Json, v.writable → c.pretty v = v.pretty
  read? : ∀ {text v}, Json.read? text = some v → c.read? text = some v

def Json.codec : Json.Codec :=
  ⟨Json.compact, Json.pretty, Json.read?⟩

theorem Json.codec_conforms : Json.codec.Conforms :=
  ⟨fun _ _ => rfl, fun _ _ => rfl, id⟩

namespace Json.Codec.Conforms

variable {c : Json.Codec} (hc : c.Conforms) {v : Json} (h : v.writable)
include hc h

theorem read?_compact : c.read? (c.compact v) = some v := by
  rw [hc.compact v h]
  exact hc.read? (Json.read?_compact v h)

theorem read?_pretty : c.read? (c.pretty v) = some v := by
  rw [hc.pretty v h]
  exact hc.read? (Json.read?_pretty v h)

end Json.Codec.Conforms

/-!
# Records
-/

namespace Json

@[simp] theorem writable_ofText (s : String) : (ofText s).writable = true :=
  rfl

@[simp] theorem writable_ofNat (n : Nat) : (ofNat n).writable = true :=
  isNumeral_toString n

theorem allWritable_map {α : Type} {f : α → Json} (h : ∀ a, (f a).writable = true) (as : List α) :
    allWritable (as.map f) = true := by
  induction as with
  | nil => rfl
  | cons a as ih =>
      rw [List.map_cons, allWritable, h a, ih]
      rfl

theorem writable_ofFields (fields : List (String × Json)) :
    (ofFields fields).writable = fields.all fun field => field.2.writable := by
  show membersWritable (fields.map _) = _
  induction fields with
  | nil => rfl
  | cons field fields ih =>
      rw [List.map_cons, membersWritable, ih, List.all_cons]
      rfl

theorem valuesOf_ofFields {fields : List (String × Json)} (h : (fields.map Prod.fst).Nodup)
    (name : String) :
    valuesOf (fields.map fun field => ⟨some field.1, field.2⟩) name =
      (fields.lookup name).toList := by
  induction fields with
  | nil => rfl
  | cons field fields ih =>
      rcases field with ⟨key, v⟩
      rcases List.nodup_cons.mp h with ⟨hkey, hrest⟩
      have hvalues := ih hrest
      unfold valuesOf at hvalues ⊢
      by_cases hname : name = key
      · subst hname
        -- no field behind this one has its name
        have hnone : fields.lookup name = none := by
          apply List.lookup_eq_none_iff.mpr
          intro field hfield
          have hmem : field.1 ∈ fields.map Prod.fst := List.mem_map_of_mem hfield
          exact bne_iff_ne.mpr fun heq => hkey (heq ▸ hmem)
        rw [hnone] at hvalues
        simp [hvalues]
      · have hother : ¬key = name := fun heq => hname heq.symm
        rw [List.lookup_cons, beq_false_of_ne hname]
        simp [hother, hvalues]

theorem field?_ofFields {fields : List (String × Json)} (h : (fields.map Prod.fst).Nodup)
    (name : String) :
    field? (fields.map fun field => ⟨some field.1, field.2⟩) name = some (fields.lookup name) := by
  rw [field?, valuesOf_ofFields h]
  cases fields.lookup name <;> rfl

theorem fields?_ofFields {fields : List (String × Json)} (h : (fields.map Prod.fst).Nodup)
    (names : List String) :
    (ofFields fields).fields? names = some (names.map fun name => fields.lookup name) := by
  have hkeys : (fields.map fun field => (⟨some field.1, field.2⟩ : Member)).all
      (·.key.isSome) = true := by
    simp
  have hread : field? (fields.map fun field => ⟨some field.1, field.2⟩) =
      fun name => some (fields.lookup name) := funext (field?_ofFields h)
  rw [ofFields, fields?, if_pos hkeys, hread]
  exact List.mapM_pure

theorem natBelow?_ofNat {n bound : Nat} (h : n < bound) : (ofNat n).natBelow? bound = some n := by
  rw [ofNat, natBelow?, natural?_toString, Option.filter_some, if_pos (decide_eq_true h)]

end Json

/-!
# Diagnostics and batches
-/

theorem Category.ofJson?_toJson (c : Category) : Category.ofJson? c.toJson = some c := by
  cases c <;> rfl

namespace Diagnostic

theorem writable_toJson (d : Diagnostic) : d.toJson.writable = true := by
  rw [toJson, Json.writable_ofFields]
  cases d.suggestion <;> simp [Category.toJson]

theorem fields?_toJson (d : Diagnostic) :
    d.toJson.fields? fieldNames =
      some [some (.ofText d.file), some (.ofNat d.code.number.toNat), some d.category.toJson,
        some (.ofText d.message), some (.ofNat d.line.toNat), d.suggestion.map .ofText] := by
  rcases d with ⟨file, code, category, message, line, suggestion⟩
  cases suggestion with
  | none =>
      apply Json.fields?_ofFields
      show ["file", "code", "category", "message", "line"].Nodup
      decide
  | some s =>
      apply Json.fields?_ofFields
      show fieldNames.Nodup
      decide

theorem suggestionOfJson?_map (suggestion : Option String) :
    suggestionOfJson? (suggestion.map .ofText) = some suggestion := by
  cases suggestion <;> rfl

theorem ofJson?_toJson (d : Diagnostic) : ofJson? d.toJson = some d := by
  have hcode : (Json.ofNat d.code.number.toNat).natBelow? UInt16.size =
      some d.code.number.toNat := Json.natBelow?_ofNat d.code.number.toNat_lt_size
  have hline : (Json.ofNat d.line.toNat).natBelow? UInt32.size = some d.line.toNat :=
    Json.natBelow?_ofNat d.line.toNat_lt_size
  rw [ofJson?, fields?_toJson]
  have hnumber : d.code.number.toNat.toUInt16 = d.code.number := UInt16.ofNat_toNat
  have hlineNumber : d.line.toNat.toUInt32 = d.line := UInt32.ofNat_toNat
  simp only [hcode, hline, Category.ofJson?_toJson, suggestionOfJson?_map]
  show some (Diagnostic.mk d.file ⟨d.code.number.toNat.toUInt16⟩ d.category d.message
    d.line.toNat.toUInt32 d.suggestion) = some d
  rw [hnumber, hlineNumber]

end Diagnostic

namespace Batch

theorem writable_toJson (b : Batch) : b.toJson.writable = true := by
  have herrors : (Json.arr (b.errors.map Diagnostic.toJson)).writable = true :=
    Json.allWritable_map Diagnostic.writable_toJson b.errors
  rw [toJson, Json.writable_ofFields]
  simp [herrors]

theorem fields?_toJson (b : Batch) :
    b.toJson.fields? fieldNames =
      some [some (.arr (b.errors.map Diagnostic.toJson)), some (.ofNat b.total)] := by
  apply Json.fields?_ofFields
  show fieldNames.Nodup
  decide

theorem mapM_ofJson?_toJson (ds : List Diagnostic) :
    (ds.map Diagnostic.toJson).mapM Diagnostic.ofJson? = some ds := by
  have hread : Diagnostic.ofJson? ∘ Diagnostic.toJson = fun d => some d :=
    funext Diagnostic.ofJson?_toJson
  have hpure : ds.mapM (fun d => (pure d : Option Diagnostic)) = pure (ds.map fun d => d) :=
    List.mapM_pure
  rw [List.mapM_map, hread]
  rwa [List.map_id'] at hpure

theorem ofJson?_toJson {b : Batch} (h : b.total < UInt64.size) :
    ofJson? b.toJson = some { b with limit := defaultLimit } := by
  rw [ofJson?, fields?_toJson]
  simp only [Json.items?, Json.natBelow?_ofNat h]
  show ((b.errors.map Diagnostic.toJson).mapM Diagnostic.ofJson?).bind _ = _
  rw [mapM_ofJson?_toJson]
  rfl

theorem survives_codec {c : Json.Codec} (hc : c.Conforms) {b : Batch} (h : b.total < UInt64.size) :
    (c.read? (c.pretty b.toJson)).bind ofJson? = some { b with limit := defaultLimit } ∧
      ∀ d : Diagnostic, (c.read? (c.compact d.toJson)).bind Diagnostic.ofJson? = some d := by
  constructor
  · rw [hc.read?_pretty b.writable_toJson, Option.bind_some, ofJson?_toJson h]
  · intro d
    rw [hc.read?_compact d.writable_toJson, Option.bind_some, Diagnostic.ofJson?_toJson]

/--
Diagnostics survive their documents, whatever characters there are in their paths, messages and
suggestions.  From the written document of a batch, whose count is a word, a batch is read with the
same diagnostics in the same order, the same count and the usual limit; and from that of a single
diagnostic the diagnostic is read.  So it is with every library that writes documents as they are
written here and reads what is read here.
-/
theorem survives_document (b : Batch) (h : b.total < UInt64.size) :
    (read? b.write = some { b with limit := defaultLimit } ∧
      ∀ d, Diagnostic.read? d.write = some d) ∧
    ∀ c : Json.Codec, c.Conforms →
      (c.read? (c.pretty b.toJson)).bind ofJson? = some { b with limit := defaultLimit } ∧
        ∀ d : Diagnostic, (c.read? (c.compact d.toJson)).bind Diagnostic.ofJson? = some d := by
  constructor
  · have hown := survives_codec Json.codec_conforms h
    dsimp only [Json.codec] at hown
    exact hown
  · exact fun c hc => survives_codec hc h

end Batch

namespace Sample

def lenientCodec : Json.Codec :=
  ⟨Json.compact, Json.pretty, fun text => (Json.read? text).or (some .null)⟩

def strangeBatch : Batch where
  errors :=
    [.ofCode "src\\\u0000\u001f.aura" ⟨201⟩ "found \"\t\u2028\u007f😀\"" 4294967295 (some "é\n"),
      .ofCode "" ⟨65535⟩ "\\u0041" 0 none]
  total := 30
  limit := 2

end Sample

theorem Batch.survives_document_strange :
    Sample.strangeBatch.total < UInt64.size ∧ Sample.lenientCodec.Conforms ∧
      read? Sample.strangeBatch.write = some { Sample.strangeBatch with limit := 20 } ∧
      (Sample.lenientCodec.read? (Sample.lenientCodec.pretty Sample.strangeBatch.toJson)).bind
        ofJson? = some { Sample.strangeBatch with limit := 20 } := by
  have htotal : Sample.strangeBatch.total < UInt64.size := by decide
  have hcodec : Sample.lenientCodec.Conforms :=
    ⟨fun _ _ => rfl, fun _ _ => rfl, fun h => congrArg (·.or (some .null)) h⟩
  have h := survives_document Sample.strangeBatch htotal
  exact ⟨htotal, hcodec, h.1.1, (h.2 Sample.lenientCodec hcodec).1⟩

end StaticTyping
