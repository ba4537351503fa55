import StaticTyping.Json.Reader
import StaticTyping.Proofs.Json.Tokens

/-!
# Documents are read back as they were written

The tokens of a document make up the document again.  Both written forms are cut into these tokens,
so from both the document is read back.
-/

namespace StaticTyping
namespace Json

namespace Reading

theorem steps?_append (r : Reading) (ts us : List Token) :
    r.steps? (ts ++ us) = (r.steps? ts).bind fun r => r.steps? us := by
  induction ts generalizing r with
  | nil => rfl
  | cons t ts ih =>
      show (r.step? t).bind (fun r => r.steps? (ts ++ us)) =
        ((r.step? t).bind fun r => r.steps? ts).bind fun r => r.steps? us
      rw [Option.bind_assoc]
      exact congrArg _ (funext fun r => ih r)

theorem steps?_singleton (r : Reading) (t : Token) : r.steps? [t] = r.step? t :=
  Option.bind_fun_some (r.step? t)

end Reading

theorem intercalate_cons {α : Type} (sep : α) (l : List α) (ls : List (List α)) :
    [sep].intercalate (l :: ls) = l ++ ls.flatMap (sep :: ·) := by
  induction ls generalizing l with
  | nil => rw [List.intercalate_singleton, List.flatMap_nil, List.append_nil]
  | cons l' ls ih =>
      rw [List.intercalate_cons_cons, ih, List.flatMap_cons, List.append_assoc]
      rfl

open Reading

theorem steps?_firstValue (v : Json) (items : List Json) (fs : List Frame) (rest : List Token) :
    steps? (.inside .firstValue (.array items :: fs)) (v.tokens ++ rest) =
      steps? (.inside .value (.array items :: fs)) (v.tokens ++ rest) := by
  cases v <;> rfl

mutual

theorem steps?_tokens : ∀ (v : Json) (fs : List Frame),
    steps? (.inside .value fs) v.tokens = settle? v fs
  | .null, fs | .bool _, fs | .num _, fs | .str _, fs => steps?_singleton (.inside .value fs) _
  | .arr [], fs => steps?_singleton (.inside .firstValue (.array [] :: fs)) .closeBracket
  | .arr (v :: vs), fs => by
      show steps? (.inside .firstValue (.array [] :: fs))
        ([Token.comma].intercalate (v.tokens :: itemTokens vs) ++ [.closeBracket]) = _
      rw [intercalate_cons, List.append_assoc, steps?_firstValue, steps?_append,
        steps?_tokens v (.array [] :: fs)]
      exact steps?_items vs [v] fs
  | .obj [], fs => steps?_singleton (.inside .firstKey (.object [] :: fs)) .closeBrace
  | .obj (⟨key, v⟩ :: ms), fs => by
      show steps? (.inside .firstKey (.object [] :: fs))
        ([Token.comma].intercalate ((.str key :: .colon :: v.tokens) :: memberTokens ms) ++
          [.closeBrace]) = _
      rw [intercalate_cons, List.append_assoc]
      show steps? (.inside .value (.field [] key :: fs)) (v.tokens ++ _) = _
      rw [steps?_append, steps?_tokens v (.field [] key :: fs)]
      exact steps?_members ms [⟨key, v⟩] fs
termination_by structural v => v

theorem steps?_items : ∀ (vs items : List Json) (fs : List Frame),
    steps? (.inside .separator (.array items :: fs))
        ((itemTokens vs).flatMap (.comma :: ·) ++ [.closeBracket]) =
      settle? (.arr (items.reverse ++ vs)) fs
  | [], items, fs => by
      rw [List.append_nil]
      exact steps?_singleton (.inside .separator (.array items :: fs)) .closeBracket
  | v :: vs, items, fs => by
      show steps? (.inside .value (.array items :: fs))
        (v.tokens ++ (itemTokens vs).flatMap (.comma :: ·) ++ [.closeBracket]) = _
      rw [List.append_assoc, steps?_append, steps?_tokens v (.array items :: fs)]
      have hrest := steps?_items vs (v :: items) fs
      rw [List.reverse_cons, List.append_assoc] at hrest
      exact hrest
termination_by structural vs => vs

theorem steps?_members : ∀ (ms members : List Member) (fs : List Frame),
    steps? (.inside .separator (.object members :: fs))
        ((memberTokens ms).flatMap (.comma :: ·) ++ [.closeBrace]) =
      settle? (.obj (members.reverse ++ ms)) fs
  | [], members, fs => by
      rw [List.append_nil]
      exact steps?_singleton (.inside .separator (.object members :: fs)) .closeBrace
  | ⟨key, v⟩ :: ms, members, fs => by
      show steps? (.inside .value (.field members key :: fs))
        (v.tokens ++ (memberTokens ms).flatMap (.comma :: ·) ++ [.closeBrace]) = _
      rw [List.append_assoc, steps?_append, steps?_tokens v (.field members key :: fs)]
      have hrest := steps?_members ms (⟨key, v⟩ :: members) fs
      rw [List.reverse_cons, List.append_assoc] at hrest
      exact hrest
termination_by structural ms => ms

end

theorem read?_of_spells {text : String} {v : Json} (h : Spells text.toList v.tokens) :
    read? text = some v := by
  rw [read?, tokens?_of_spells h, Option.bind_some, ofTokens?, steps?_tokens v []]
  rfl

theorem read?_compact (v : Json) (h : v.writable = true) : read? v.compact = some v :=
  read?_of_spells (spells_compact v h)

theorem read?_pretty (v : Json) (h : v.writable = true) : read? v.pretty = some v :=
  read?_of_spells (spells_indented 0 v h)

end Json
end StaticTyping
