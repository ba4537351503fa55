import StaticTyping.Json.Numeral
import StaticTyping.Json.Quoted

/-!
# Texts and numbers inside documents

What is written inside quotes is read back as the text it was written for, whatever characters the
text has.  A natural number is written as a numeral that stands for it.
-/

namespace StaticTyping
namespace Json

/-!
# Texts
-/

/-- The forms that a character is written in: an escape of one letter, four digits, or itself. -/
inductive WrittenAs (c : Char) : List Char → Prop where
  | short {e : Char} : e ≠ 'u' → shortEscape? e = some c → WrittenAs c ['\\', e]
  | digits : c.toNat < 32 → WrittenAs c
      ['\\', 'u', '0', '0', hexDigit (c.toNat / 16), hexDigit (c.toNat % 16)]
  | plain : ¬c < ' ' → c ≠ '\\' → c ≠ '"' → WrittenAs c [c]

theorem escapeChar_writtenAs (c : Char) : WrittenAs c (escapeChar c) := by
  by_cases hshort : c ∈ ['"', '\\', '\x08', '\x0c', '\n', '\r', '\t']
  · simp only [List.mem_cons, List.not_mem_nil, or_false] at hshort
    rcases hshort with rfl | rfl | rfl | rfl | rfl | rfl | rfl <;>
      exact .short (by decide) rfl
  · simp only [List.mem_cons, List.not_mem_nil, or_false, not_or] at hshort
    rcases hshort with ⟨hquote, hbackslash, hb, hf, hn, hr, ht⟩
    unfold escapeChar
    rw [if_neg hquote, if_neg hbackslash, if_neg hb, if_neg hf, if_neg hn, if_neg hr, if_neg ht]
    split
    next hcontrol => exact .digits hcontrol
    next hcontrol => exact .plain hcontrol hbackslash hquote

theorem hexValue?_hexDigit : ∀ n < 16, hexValue? (hexDigit n) = some n := by
  decide

theorem unit?_hexDigit {n : Nat} (h : n < 256) :
    unit? '0' '0' (hexDigit (n / 16)) (hexDigit (n % 16)) = some n := by
  have hzero : hexValue? '0' = some 0 := rfl
  have hhigh : hexValue? (hexDigit (n / 16)) = some (n / 16) := hexValue?_hexDigit _ (by omega)
  have hlow : hexValue? (hexDigit (n % 16)) = some (n % 16) := hexValue?_hexDigit _ (by omega)
  have hsum : ((0 * 16 + 0) * 16 + n / 16) * 16 + n % 16 = n := by omega
  rw [unit?, hzero, hhigh, hlow]
  exact congrArg some hsum

theorem pieces?_short {c e : Char} (hu : e ≠ 'u') (he : shortEscape? e = some c)
    (rest : List Char) : pieces? ('\\' :: e :: rest) = (pieces? rest).map (.char c :: ·) := by
  rw [pieces?.eq_3 e rest fun _ _ _ _ _ h _ => hu h, he]
  cases pieces? rest <;> rfl

theorem pieces?_digits {n : Nat} (h : n < 256) (rest : List Char) :
    pieces? ('\\' :: 'u' :: '0' :: '0' :: hexDigit (n / 16) :: hexDigit (n % 16) :: rest) =
      (pieces? rest).map (.unit n :: ·) := by
  rw [pieces?.eq_2, unit?_hexDigit h]
  cases pieces? rest <;> rfl

theorem pieces?_plain {c : Char} (hcontrol : ¬c < ' ') (hbackslash : c ≠ '\\') (hquote : c ≠ '"')
    (rest : List Char) : pieces? (c :: rest) = (pieces? rest).map (.char c :: ·) := by
  rw [pieces?.eq_4 c rest (fun _ _ _ _ _ h _ => hbackslash h) fun _ _ h _ => hbackslash h, if_neg]
  simp [hcontrol, hbackslash, hquote]

theorem join?_unit {n : Nat} (h : n < 0xD800) (ps : List Piece) :
    join? (.unit n :: ps) = (join? ps).map (Char.ofNat n :: ·) := by
  have hleading : isLeading n = false := by simp [isLeading]; omega
  have htrailing : isTrailing n = false := by simp [isTrailing]; omega
  cases ps with
  | nil => simp [join?, hleading, htrailing]
  | cons p ps => cases p <;> simp [join?, hleading, htrailing]

theorem WrittenAs.exists_piece {c : Char} {cs : List Char} (h : WrittenAs c cs) :
    ∃ p, (∀ rest, pieces? (cs ++ rest) = (pieces? rest).map (p :: ·)) ∧
      ∀ ps, join? (p :: ps) = (join? ps).map (c :: ·) := by
  cases h with
  | short hu he => exact ⟨.char c, pieces?_short hu he, fun _ => rfl⟩
  | digits hc =>
      refine ⟨.unit c.toNat, pieces?_digits (by omega), fun ps => ?_⟩
      rw [join?_unit (by omega), Char.ofNat_toNat]
  | plain hcontrol hbackslash hquote =>
      exact ⟨.char c, pieces?_plain hcontrol hbackslash hquote, fun _ => rfl⟩

theorem exists_pieces_escape (s : List Char) :
    ∃ ps, pieces? (escape s) = some ps ∧ join? ps = some s := by
  induction s with
  | nil => exact ⟨[], rfl, rfl⟩
  | cons c s ih =>
      rcases ih with ⟨ps, hpieces, hjoin⟩
      rcases (escapeChar_writtenAs c).exists_piece with ⟨p, hpiece, hchar⟩
      refine ⟨p :: ps, ?_, ?_⟩
      · show pieces? (escapeChar c ++ escape s) = _
        rw [hpiece, hpieces, Option.map_some]
      · rw [hchar, hjoin, Option.map_some]

theorem unescape?_escape (s : String) : unescape? (escape s.toList) = some (some s) := by
  rcases exists_pieces_escape s.toList with ⟨ps, hpieces, hjoin⟩
  rw [unescape?, hpieces, Option.map_some, hjoin, Option.map_some, String.ofList_toList]

example : unescape? (escape ['é', '😀', '\x01']) = some (some "é😀\x01") := by
  decide

/-!
# Numerals
-/

theorem toList_toString (n : Nat) : (toString n).toList = Nat.toDigits 10 n := by
  rw [Nat.toString_eq_ofList_toDigits, String.toList_ofList]

theorem isDigit_of_mem_toDigits {n : Nat} {c : Char} (h : c ∈ Nat.toDigits 10 n) :
    c.isDigit = true :=
  Nat.isDigit_of_mem_toDigits (by decide) (by decide) h

theorem ofDigits_toDigits (n : Nat) : ofDigits (Nat.toDigits 10 n) = n := by
  have hstep : (fun (n : Nat) (c : Char) => n * 10 + (c.toNat - 48)) =
      fun n c => 10 * n + (c.toNat - '0'.toNat) := by
    funext n c
    rw [Nat.mul_comm]
    rfl
  rw [ofDigits, hstep, ← Nat.ofDigitChars_eq_foldl, Nat.ofDigitChars_ten_toDigits]

theorem natural?_toString (n : Nat) : natural? (toString n) = some n := by
  have hdigits : (Nat.toDigits 10 n).all Char.isDigit = true :=
    List.all_eq_true.mpr fun _ => isDigit_of_mem_toDigits
  have hsome : (Nat.toDigits 10 n).isEmpty = false := by
    simp [Nat.toDigits_ne_nil]
  unfold natural?
  dsimp only
  rw [toList_toString, hdigits, hsome, ofDigits_toDigits]
  rfl

theorem head?_toDigits_ne_zero {n : Nat} (h : 0 < n) : (Nat.toDigits 10 n).head? ≠ some '0' := by
  induction n using Nat.strongRecOn with
  | ind n ih =>
      by_cases hn : n < 10
      · rw [Nat.toDigits_of_lt_base hn]
        have hall : ∀ m < 10, 0 < m → [Nat.digitChar m].head? ≠ some '0' := by decide
        exact hall n hn h
      · have hrest := ih (n / 10) (by omega) (by omega)
        rw [Nat.toDigits_of_base_le (by decide) (Nat.le_of_not_lt hn), List.head?_append]
        cases hhead : (Nat.toDigits 10 (n / 10)).head? with
        | none => exact absurd (List.head?_eq_none_iff.mp hhead) Nat.toDigits_ne_nil
        | some c =>
            rw [hhead] at hrest
            exact hrest

theorem isUnsigned_of_digits {cs : List Char} (hsome : cs ≠ [])
    (hdigits : ∀ c ∈ cs, c.isDigit = true) (hzero : cs.head? = some '0' → cs = ['0']) :
    isUnsigned cs = true := by
  have htake : (cs ++ []).takeWhile Char.isDigit = cs ++ [].takeWhile Char.isDigit :=
    List.takeWhile_append_of_pos hdigits
  have hdrop : (cs ++ []).dropWhile Char.isDigit = [].dropWhile Char.isDigit :=
    List.dropWhile_append_of_pos hdigits
  rw [List.append_nil] at htake hdrop
  rw [isUnsigned, htake, hdrop, List.takeWhile_nil, List.append_nil]
  split
  next => exact absurd rfl hsome
  next => rfl
  next hmore => exact absurd (List.cons.inj (hzero rfl)).2 hmore
  next => rfl

theorem isNumeral_toString (n : Nat) : isNumeral (toString n).toList = true := by
  have hzero : (Nat.toDigits 10 n).head? = some '0' → Nat.toDigits 10 n = ['0'] := by
    intro hhead
    have hn : n = 0 := Nat.eq_zero_of_not_pos fun h => head?_toDigits_ne_zero h hhead
    rw [hn]
    rfl
  have hunsigned := isUnsigned_of_digits Nat.toDigits_ne_nil
    (fun _ => isDigit_of_mem_toDigits) hzero
  rw [toList_toString]
  cases hcs : Nat.toDigits 10 n with
  | nil => exact absurd hcs Nat.toDigits_ne_nil
  | cons c cs =>
      rw [hcs] at hunsigned
      unfold isNumeral
      split
      next h =>
        have hminus : '-' ∈ Nat.toDigits 10 n := by
          rw [hcs, h]
          exact List.mem_cons_self
        exact absurd (isDigit_of_mem_toDigits hminus) (by decide)
      next => exact hunsigned

end Json
end StaticTyping
