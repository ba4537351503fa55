import Mathlib.Data.List.Forall2
import StaticTyping.Json.Printer
import StaticTyping.Json.Token
import StaticTyping.Proofs.Json.Text

/-!
# The tokens of a written document

Both written forms of a document are cut into the same tokens: those that the document is made of.
A token is over at the next delimiter at the latest, and between the tokens of an indented form
there are blanks only.
-/

namespace StaticTyping
namespace Json

/-!
# Documents as tokens
-/

mutual

def tokens : Json → List Token
  | .null => [.null]
  | .bool value => [.bool value]
  | .num digits => [.num digits]
  | .str text => [.str text]
  | .arr items =>
      .openBracket :: ([Token.comma].intercalate (itemTokens items) ++ [.closeBracket])
  | .obj members =>
      .openBrace :: ([Token.comma].intercalate (memberTokens members) ++ [.closeBrace])
termination_by structural v => v

def itemTokens : List Json → List (List Token)
  | [] => []
  | v :: vs => tokens v :: itemTokens vs
termination_by structural vs => vs

def memberTokens : List Member → List (List Token)
  | [] => []
  | ⟨key, v⟩ :: ms => (.str key :: .colon :: tokens v) :: memberTokens ms
termination_by structural ms => ms

end

mutual

/-- Whether there is a text for a document: its numbers are numerals, and its strings and keys stand
for texts. -/
def writable : Json → Bool
  | .null | .bool _ => true
  | .num digits => isNumeral digits.toList
  | .str text => text.isSome
  | .arr items => allWritable items
  | .obj members => membersWritable members
termination_by structural v => v

def allWritable : List Json → Bool
  | [] => true
  | v :: vs => writable v && allWritable vs
termination_by structural vs => vs

def membersWritable : List Member → Bool
  | [] => true
  | ⟨key, v⟩ :: ms => key.isSome && writable v && membersWritable ms
termination_by structural ms => ms

end

/-!
# Texts that spell tokens
-/

theorem Scan.steps?_append (s : Scan) (cs ds : List Char) :
    s.steps? (cs ++ ds) = (s.steps? cs).bind fun s => s.steps? ds := by
  induction cs generalizing s with
  | nil => rfl
  | cons c cs ih =>
      show (s.step? c).bind (fun s => s.steps? (cs ++ ds)) =
        ((s.step? c).bind fun s => s.steps? cs).bind fun s => s.steps? ds
      rw [Option.bind_assoc]
      exact congrArg _ (funext fun s => ih s)

def delimits (c : Char) : Bool :=
  !c.isLower && !inNumeral c

/-- The scan has come to those tokens, last first, though the last of them may go on: it does not if
the text ends or if a delimiter comes next. -/
structure Scan.Behind (s : Scan) (found : List Token) : Prop where
  finish : s.finish? = some found
  next : ∀ c, delimits c = true → s.step? c = Scan.begin? found c

def Spells (cs : List Char) (ts : List Token) : Prop :=
  ∀ found, ∃ s, Scan.steps? ⟨found, .nothing⟩ cs = some s ∧ s.Behind (ts.reverse ++ found)

def SpellsOut (cs : List Char) (ts : List Token) : Prop :=
  ∀ found, Scan.steps? ⟨found, .nothing⟩ cs = some ⟨ts.reverse ++ found, .nothing⟩

theorem Scan.Behind.nothing (found : List Token) : Scan.Behind ⟨found, .nothing⟩ found where
  finish := rfl
  next _ _ := rfl

section

variable {cs ds : List Char} {ts us : List Token}

theorem SpellsOut.spells (h : SpellsOut cs ts) : Spells cs ts := fun found =>
  ⟨_, h found, .nothing _⟩

theorem SpellsOut.nil : SpellsOut [] [] := fun _ =>
  rfl

theorem SpellsOut.append (h : SpellsOut cs ts) (h' : SpellsOut ds us) :
    SpellsOut (cs ++ ds) (ts ++ us) := by
  intro found
  rw [Scan.steps?_append, h found, Option.bind_some, h', List.reverse_append, List.append_assoc]

theorem SpellsOut.append_spells (h : SpellsOut cs ts) (h' : Spells ds us) :
    Spells (cs ++ ds) (ts ++ us) := by
  intro found
  rcases h' (ts.reverse ++ found) with ⟨s, hsteps, hbehind⟩
  refine ⟨s, ?_, ?_⟩
  · rw [Scan.steps?_append, h found, Option.bind_some, hsteps]
  · rw [List.reverse_append, List.append_assoc]
    exact hbehind

theorem Spells.append (h : Spells cs ts) (h' : SpellsOut ds us)
    (hdelimited : ds.head?.any delimits = true) : SpellsOut (cs ++ ds) (ts ++ us) := by
  intro found
  rcases h found with ⟨s, hsteps, hbehind⟩
  cases ds with
  | nil => cases hdelimited
  | cons d ds =>
      rw [List.reverse_append, List.append_assoc, ← h' (ts.reverse ++ found),
        Scan.steps?_append, hsteps, Option.bind_some]
      -- with the last token over, both scans are where no token is under way
      show (s.step? d).bind _ = (Scan.begin? (ts.reverse ++ found) d).bind _
      rw [hbehind.next d hdelimited]

end

/-!
# Words, numerals and quoted texts
-/

theorem SpellsOut.blanks {cs : List Char} (h : ∀ c ∈ cs, isBlank c = true) : SpellsOut cs [] := by
  intro found
  induction cs with
  | nil => rfl
  | cons c cs ih =>
      rcases List.forall_mem_cons.mp h with ⟨hc, hcs⟩
      show (Scan.begin? found c).bind _ = _
      rw [Scan.begin?, if_pos hc]
      exact ih hcs

theorem Scan.Behind.word {cs : List Char} {t : Token} (h : word? cs = some t)
    (found : List Token) : Scan.Behind ⟨found, .word cs.reverse⟩ (t :: found) where
  finish := by
    unfold Scan.finish?
    dsimp only
    rw [List.reverse_reverse, h, Option.map_some]
  next c hc := by
    have hlower : ¬c.isLower = true := by simpa using (Bool.and_eq_true_iff.mp hc).1
    unfold Scan.step?
    dsimp only
    rw [if_neg hlower, List.reverse_reverse, h, Option.bind_some]

theorem Spells.nullWord : Spells "null".toList [.null] := fun found =>
  ⟨⟨found, .word ['n', 'u', 'l', 'l'].reverse⟩, rfl, .word rfl found⟩

theorem Spells.trueWord : Spells "true".toList [.bool true] := fun found =>
  ⟨⟨found, .word ['t', 'r', 'u', 'e'].reverse⟩, rfl, .word rfl found⟩

theorem Spells.falseWord : Spells "false".toList [.bool false] := fun found =>
  ⟨⟨found, .word ['f', 'a', 'l', 's', 'e'].reverse⟩, rfl, .word rfl found⟩

theorem inNumeral_of_isDigit {c : Char} (h : c.isDigit = true) : inNumeral c = true := by
  simp [inNumeral, h]

theorem inNumeral_of_digits {cs : List Char} (h : cs.all Char.isDigit = true) :
    ∀ c ∈ cs, inNumeral c = true := fun c hc =>
  inNumeral_of_isDigit (List.all_eq_true.mp h c hc)

theorem inNumeral_of_dropWhile {cs : List Char}
    (h : ∀ c ∈ cs.dropWhile Char.isDigit, inNumeral c = true) : ∀ c ∈ cs, inNumeral c = true := by
  rw [← List.takeWhile_append_dropWhile (p := Char.isDigit) (l := cs)]
  exact List.forall_mem_append.mpr ⟨inNumeral_of_digits List.all_takeWhile, h⟩

theorem inNumeral_of_isExponent {cs : List Char} (h : isExponent cs = true) :
    ∀ c ∈ cs, inNumeral c = true := by
  cases cs with
  | nil => exact List.forall_mem_nil _
  | cons e rest =>
      simp only [isExponent, Bool.and_eq_true] at h
      rcases h with ⟨⟨hmark, _⟩, hdigits⟩
      have hfirst : inNumeral e = true := by
        simp only [Bool.or_eq_true] at hmark
        rcases hmark with hmark | hmark <;> simp [inNumeral, hmark]
      refine List.forall_mem_cons.mpr ⟨hfirst, ?_⟩
      split at hdigits
      next => exact List.forall_mem_cons.mpr ⟨rfl, inNumeral_of_digits hdigits⟩
      next => exact List.forall_mem_cons.mpr ⟨rfl, inNumeral_of_digits hdigits⟩
      next => exact inNumeral_of_digits hdigits

theorem inNumeral_of_isFraction {cs : List Char} (h : isFraction cs = true) :
    ∀ c ∈ cs, inNumeral c = true := by
  unfold isFraction at h
  split at h
  next rest =>
    have hrest := inNumeral_of_isExponent (Bool.and_eq_true_iff.mp h).2
    exact List.forall_mem_cons.mpr ⟨rfl, inNumeral_of_dropWhile hrest⟩
  next => exact inNumeral_of_isExponent h

theorem isUnsigned_cons {cs : List Char} (h : isUnsigned cs = true) :
    cs.head?.any Char.isDigit = true ∧ ∀ c ∈ cs, inNumeral c = true := by
  have hfraction : isFraction (cs.dropWhile Char.isDigit) = true := by
    unfold isUnsigned at h
    split at h
    next => cases h
    next => exact h
    next => cases h
    next => exact h
  refine ⟨?_, inNumeral_of_dropWhile (inNumeral_of_isFraction hfraction)⟩
  cases cs with
  | nil => cases h
  | cons c cs =>
      show c.isDigit = true
      by_contra hdigit
      rw [isUnsigned, List.takeWhile_cons_of_neg hdigit] at h
      cases h

theorem isNumeral_cons {cs : List Char} (h : isNumeral cs = true) :
    cs.head?.any (fun c => c.isDigit || c == '-') = true ∧ ∀ c ∈ cs, inNumeral c = true := by
  unfold isNumeral at h
  split at h
  next => exact ⟨rfl, List.forall_mem_cons.mpr ⟨rfl, (isUnsigned_cons h).2⟩⟩
  next =>
    rcases isUnsigned_cons h with ⟨hhead, hall⟩
    refine ⟨?_, hall⟩
    cases hcs : cs.head? with
    | none => simp [hcs] at hhead
    | some c => simp_all

theorem Scan.begin?_numeral {c : Char} (h : (c.isDigit || c == '-') = true) (found : List Token) :
    Scan.begin? found c = some ⟨found, .numeral [c]⟩ := by
  have hblank : ¬isBlank c = true := by
    intro hblank
    simp only [isBlank, Bool.or_eq_true, beq_iff_eq] at hblank
    rcases hblank with ((rfl | rfl) | rfl) | rfl <;> exact absurd h (by decide)
  have hquote : ¬(c == '"') = true := by
    intro hquote
    rw [beq_iff_eq.mp hquote] at h
    exact absurd h (by decide)
  rw [Scan.begin?, if_neg hblank, if_neg hquote, if_pos h]

theorem Scan.steps?_numeral {cs : List Char} (h : ∀ c ∈ cs, inNumeral c = true)
    (found : List Token) (before : List Char) :
    Scan.steps? ⟨found, .numeral before⟩ cs = some ⟨found, .numeral (cs.reverse ++ before)⟩ := by
  induction cs generalizing before with
  | nil => rfl
  | cons c cs ih =>
      rcases List.forall_mem_cons.mp h with ⟨hc, hcs⟩
      have hstep : Scan.step? ⟨found, .numeral before⟩ c =
          some ⟨found, .numeral (c :: before)⟩ := by
        unfold Scan.step?
        dsimp only
        rw [if_pos hc]
      rw [Scan.steps?, hstep, Option.bind_some, ih hcs, List.reverse_cons, List.append_assoc]
      rfl

theorem Scan.Behind.numeral {cs : List Char} (h : isNumeral cs = true) (found : List Token) :
    Scan.Behind ⟨found, .numeral cs.reverse⟩ (.num (String.ofList cs) :: found) := by
  have hnumeral : numeral? cs = some (.num (String.ofList cs)) := by rw [numeral?, if_pos h]
  constructor
  · unfold Scan.finish?
    dsimp only
    rw [List.reverse_reverse, hnumeral, Option.map_some]
  · intro c hc
    have houtside : ¬inNumeral c = true := by simpa using (Bool.and_eq_true_iff.mp hc).2
    unfold Scan.step?
    dsimp only
    rw [if_neg houtside, List.reverse_reverse, hnumeral, Option.bind_some]

theorem Spells.num {digits : String} (h : isNumeral digits.toList = true) :
    Spells digits.toList [.num digits] := by
  intro found
  rcases isNumeral_cons h with ⟨hhead, hall⟩
  refine ⟨⟨found, .numeral digits.toList.reverse⟩, ?_, ?_⟩
  · cases hcs : digits.toList with
    | nil => rw [hcs] at hhead; cases hhead
    | cons c cs =>
        rw [hcs] at hhead hall
        show (Scan.begin? found c).bind _ = _
        rw [Scan.begin?_numeral hhead, Option.bind_some,
          Scan.steps?_numeral (List.forall_mem_cons.mp hall).2, List.reverse_cons]
  · have hbehind := Scan.Behind.numeral h found
    rwa [String.ofList_toList] at hbehind

theorem Scan.step?_quoted {c : Char} (hquote : c ≠ '"') (hbackslash : c ≠ '\\')
    (found : List Token) (before : List Char) :
    Scan.step? ⟨found, .quoted before⟩ c = some ⟨found, .quoted (c :: before)⟩ := by
  unfold Scan.step?
  dsimp only
  rw [if_neg (by simpa using hquote), if_neg (by simpa using hbackslash)]

theorem hexDigit_ne : ∀ n < 16, hexDigit n ≠ '"' ∧ hexDigit n ≠ '\\' := by
  decide

theorem WrittenAs.steps?_quoted {c : Char} {cs : List Char} (h : WrittenAs c cs)
    (found : List Token) (before : List Char) :
    Scan.steps? ⟨found, .quoted before⟩ cs = some ⟨found, .quoted (cs.reverse ++ before)⟩ := by
  cases h with
  | short _ _ => rfl
  | digits hc =>
      have hhigh := hexDigit_ne (c.toNat / 16) (by omega)
      have hlow := hexDigit_ne (c.toNat % 16) (by omega)
      show (Scan.step? ⟨found, .quoted ('0' :: '0' :: 'u' :: '\\' :: before)⟩
        (hexDigit (c.toNat / 16))).bind _ = _
      rw [Scan.step?_quoted hhigh.1 hhigh.2, Option.bind_some]
      show (Scan.step? _ (hexDigit (c.toNat % 16))).bind _ = _
      rw [Scan.step?_quoted hlow.1 hlow.2]
      rfl
  | plain _ hbackslash hquote =>
      show (Scan.step? _ c).bind _ = _
      rw [Scan.step?_quoted hquote hbackslash]
      rfl

theorem Scan.steps?_escape (s : List Char) (found : List Token) (before : List Char) :
    Scan.steps? ⟨found, .quoted before⟩ (escape s) =
      some ⟨found, .quoted ((escape s).reverse ++ before)⟩ := by
  induction s generalizing before with
  | nil => rfl
  | cons c s ih =>
      show Scan.steps? _ (escapeChar c ++ escape s) =
        some ⟨found, .quoted ((escapeChar c ++ escape s).reverse ++ before)⟩
      rw [Scan.steps?_append, (escapeChar_writtenAs c).steps?_quoted, Option.bind_some, ih,
        List.reverse_append, List.append_assoc]

theorem SpellsOut.quote (s : String) : SpellsOut (quote s).toList [.str (some s)] := by
  intro found
  have hchars : (Json.quote s).toList = '"' :: (escape s.toList ++ ['"']) := by
    simp [Json.quote]
  rw [hchars]
  show Scan.steps? ⟨found, .quoted []⟩ (escape s.toList ++ ['"']) = _
  rw [Scan.steps?_append, Scan.steps?_escape, Option.bind_some, List.append_nil]
  show ((unescape? (escape s.toList).reverse.reverse).map _).bind _ = _
  rw [List.reverse_reverse, unescape?_escape]
  rfl

/-!
# Arrays and objects
-/

section

variable {sep left right : List Char} {css : List (List Char)} {tss : List (List Token)}

theorem Spells.intercalate (hsep : SpellsOut sep [.comma])
    (hdelimited : sep.head?.any delimits = true) (h : List.Forall₂ Spells css tss) :
    Spells (sep.intercalate css) ([Token.comma].intercalate tss) := by
  induction h with
  | nil => exact SpellsOut.nil.spells
  | cons hfirst hrest ih =>
      cases hrest with
      | nil =>
          rw [List.intercalate_singleton, List.intercalate_singleton]
          exact hfirst
      | cons hsecond hrest =>
          rw [List.intercalate_cons_cons, List.intercalate_cons_cons]
          exact (hfirst.append hsep hdelimited).append_spells ih

theorem SpellsOut.enclosed {opening closing : Token} (hleft : SpellsOut left [opening])
    (hsep : SpellsOut sep [.comma]) (hsepDelimited : sep.head?.any delimits = true)
    (hright : SpellsOut right [closing]) (hrightDelimited : right.head?.any delimits = true)
    (h : List.Forall₂ Spells css tss) :
    SpellsOut (left ++ (sep.intercalate css ++ right))
      (opening :: ([Token.comma].intercalate tss ++ [closing])) :=
  hleft.append ((Spells.intercalate hsep hsepDelimited h).append hright hrightDelimited)

end

theorem SpellsOut.comma : SpellsOut ",".toList [.comma] := fun _ => rfl

theorem SpellsOut.openBracket : SpellsOut "[".toList [.openBracket] := fun _ => rfl

theorem SpellsOut.closeBracket : SpellsOut "]".toList [.closeBracket] := fun _ => rfl

theorem SpellsOut.openBrace : SpellsOut "\x7b".toList [.openBrace] := fun _ => rfl

theorem SpellsOut.closeBrace : SpellsOut "\x7d".toList [.closeBrace] := fun _ => rfl

theorem toList_newLine (depth : Nat) :
    (newLine depth).toList = '\n' :: List.replicate (2 * depth) ' ' := by
  simp [newLine]

theorem SpellsOut.newLine (depth : Nat) : SpellsOut (newLine depth).toList [] := by
  rw [toList_newLine]
  refine SpellsOut.blanks (List.forall_mem_cons.mpr ⟨rfl, fun c hc => ?_⟩)
  rw [List.eq_of_mem_replicate hc]
  rfl

section

variable {left right : String} {opening closing : Token} {items : List String}
  {tss : List (List Token)}

theorem SpellsOut.joined (hleft : SpellsOut left.toList [opening])
    (hright : SpellsOut right.toList [closing])
    (hdelimited : right.toList.head?.any delimits = true)
    (h : List.Forall₂ Spells (items.map String.toList) tss) :
    SpellsOut (left ++ ",".intercalate items ++ right).toList
      (opening :: ([Token.comma].intercalate tss ++ [closing])) := by
  rw [String.toList_append, String.toList_append, String.toList_intercalate, List.append_assoc]
  exact .enclosed hleft .comma rfl hright hdelimited h

theorem SpellsOut.enclose (hleft : SpellsOut left.toList [opening])
    (hright : SpellsOut right.toList [closing])
    (h : List.Forall₂ Spells (items.map String.toList) tss) (depth : Nat) :
    SpellsOut (enclose left right depth items).toList
      (opening :: ([Token.comma].intercalate tss ++ [closing])) := by
  cases items with
  | nil =>
      cases h
      rw [Json.enclose, String.toList_append]
      exact hleft.append hright
  | cons item items =>
      have hcomma := SpellsOut.comma.append (.newLine (depth + 1))
      have hclosing := (SpellsOut.newLine depth).append hright
      -- the last item is over at the line break in front of the bracket
      have hdelimited :
          ((Json.newLine depth).toList ++ right.toList).head?.any delimits = true := by
        rw [toList_newLine]
        rfl
      have hitems := SpellsOut.enclosed (hleft.append (.newLine (depth + 1))) hcomma rfl hclosing
        hdelimited h
      rw [Json.enclose]
      · simpa only [String.toList_append, String.toList_intercalate, List.append_assoc]
          using hitems
      · exact List.cons_ne_nil item items

end

theorem SpellsOut.quoteText {text : Option String} (h : text.isSome = true) :
    SpellsOut (quoteText text).toList [.str text] := by
  cases text with
  | none => cases h
  | some text => exact .quote text

theorem Spells.member {key : Option String} {colon value : String} {ts : List Token}
    (hkey : key.isSome = true) (hcolon : SpellsOut colon.toList [.colon])
    (hvalue : Spells value.toList ts) :
    Spells (Json.quoteText key ++ colon ++ value).toList (.str key :: .colon :: ts) := by
  rw [String.toList_append, String.toList_append]
  exact ((SpellsOut.quoteText hkey).append hcolon).append_spells hvalue

mutual

theorem spells_compact : ∀ v : Json, v.writable = true → Spells v.compact.toList v.tokens
  | .null, _ => .nullWord
  | .bool true, _ => .trueWord
  | .bool false, _ => .falseWord
  | .num _, h => .num h
  | .str _, h => (SpellsOut.quoteText h).spells
  | .arr items, h =>
      (SpellsOut.joined .openBracket .closeBracket rfl (spells_compactItems items h)).spells
  | .obj members, h =>
      (SpellsOut.joined .openBrace .closeBrace rfl (spells_compactMembers members h)).spells
termination_by structural v => v

theorem spells_compactItems : ∀ vs : List Json, allWritable vs = true →
    List.Forall₂ Spells ((compactItems vs).map String.toList) (itemTokens vs)
  | [], _ => .nil
  | v :: vs, h => by
      rcases Bool.and_eq_true_iff.mp h with ⟨hv, hvs⟩
      exact .cons (spells_compact v hv) (spells_compactItems vs hvs)
termination_by structural vs => vs

theorem spells_compactMembers : ∀ ms : List Member, membersWritable ms = true →
    List.Forall₂ Spells ((compactMembers ms).map String.toList) (memberTokens ms)
  | [], _ => .nil
  | ⟨_, v⟩ :: ms, h => by
      rcases Bool.and_eq_true_iff.mp h with ⟨hhead, hms⟩
      rcases Bool.and_eq_true_iff.mp hhead with ⟨hkey, hv⟩
      exact .cons (.member hkey (fun _ => rfl) (spells_compact v hv))
        (spells_compactMembers ms hms)
termination_by structural ms => ms

end

mutual

theorem spells_indented (depth : Nat) : ∀ v : Json, v.writable = true →
    Spells (v.indented depth).toList v.tokens
  | .null, _ => .nullWord
  | .bool true, _ => .trueWord
  | .bool false, _ => .falseWord
  | .num _, h => .num h
  | .str _, h => (SpellsOut.quoteText h).spells
  | .arr items, h =>
      (SpellsOut.enclose .openBracket .closeBracket (spells_indentedItems (depth + 1) items h)
        depth).spells
  | .obj members, h =>
      (SpellsOut.enclose .openBrace .closeBrace (spells_indentedMembers (depth + 1) members h)
        depth).spells
termination_by structural v => v

theorem spells_indentedItems (depth : Nat) : ∀ vs : List Json, allWritable vs = true →
    List.Forall₂ Spells ((indentedItems depth vs).map String.toList) (itemTokens vs)
  | [], _ => .nil
  | v :: vs, h => by
      rcases Bool.and_eq_true_iff.mp h with ⟨hv, hvs⟩
      exact .cons (spells_indented depth v hv) (spells_indentedItems depth vs hvs)
termination_by structural vs => vs

theorem spells_indentedMembers (depth : Nat) : ∀ ms : List Member, membersWritable ms = true →
    List.Forall₂ Spells ((indentedMembers depth ms).map String.toList) (memberTokens ms)
  | [], _ => .nil
  | ⟨_, v⟩ :: ms, h => by
      rcases Bool.and_eq_true_iff.mp h with ⟨hhead, hms⟩
      rcases Bool.and_eq_true_iff.mp hhead with ⟨hkey, hv⟩
      exact .cons (.member hkey (fun _ => rfl) (spells_indented depth v hv))
        (spells_indentedMembers depth ms hms)
termination_by structural ms => ms

end

theorem tokens?_of_spells {cs : List Char} {ts : List Token} (h : Spells cs ts) :
    tokens? cs = some ts := by
  rcases h [] with ⟨s, hsteps, hbehind⟩
  rw [tokens?, Scan.start, hsteps, Option.bind_some, hbehind.finish, Option.map_some,
    List.append_nil, List.reverse_reverse]

end Json
end StaticTyping
