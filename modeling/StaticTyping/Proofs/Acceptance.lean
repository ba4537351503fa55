import StaticTyping.Proofs.Identity

/-!
# Acceptance orders types

There are six ways for a type to accept another, told apart by `Ty.Accepts`.  Acceptance is
reflexive, and two types that accept each other are the same.  It is transitive where a name stands
for one class or one interface only: classes and interfaces are identified by their names, but
whether a class satisfies an interface depends on the methods.
-/

namespace StaticTyping

inductive Ty.Accepts : Ty → Ty → Prop where
  | same {a b : Ty} : a.same b = true → Accepts a b
  | any (t : Ty) : Accepts .any t
  | satisfied {i : InterfaceTy} {c : ClassTy} : c.satisfies i = true →
      Accepts (.interfaceTy i) (.classTy c)
  | list {a b : Ty} : Accepts a b → Accepts (.list a) (.list b)
  | map {key value key' value' : Ty} : Accepts key key' → Accepts value value' →
      Accepts (.map key value) (.map key' value')
  | function {s : Signature} {f : NamedFunction} : s.same f.sig = true →
      Accepts (.function s) (.named f)

theorem Ty.accepts_of_same : ∀ {a b : Ty}, a.same b = true → a.accepts b = true
  | .any, _, _ => rfl
  | .list a, b, h => by
      cases b with
      | list b => exact Ty.accepts_of_same (a := a) h
      | _ => simp [Ty.same] at h
  | .map key value, b, h => by
      cases b with
      | map key' value' =>
          simp only [Ty.same, Bool.and_eq_true] at h
          simp [Ty.accepts, Ty.accepts_of_same h.1, Ty.accepts_of_same h.2]
      | _ => simp [Ty.same] at h
  | .interfaceTy i, b, h => by
      cases b with
      | interfaceTy j => exact h
      | _ => simp [Ty.same] at h
  | .function s, b, h => by
      cases b with
      | function t => exact h
      | _ => simp [Ty.same] at h
  | .int, _, h | .float, _, h | .string, _, h | .bool, _, h | .char, _, h | .nil, _, h
  | .noValue, _, h | .error, _, h | .unknown _, _, h | .tuple _, _, h | .named _, _, h
  | .classTy _, _, h | .moduleTy _, _, h => h
termination_by structural a => a

theorem Ty.Accepts.of_accepts : ∀ {a b : Ty}, a.accepts b = true → Ty.Accepts a b
  | .any, b, _ => .any b
  | .list a, b, h => by
      cases b with
      | list b => exact .list (of_accepts (a := a) h)
      | _ => exact .same h
  | .map key value, b, h => by
      cases b with
      | map key' value' =>
          simp only [Ty.accepts, Bool.and_eq_true] at h
          exact .map (of_accepts h.1) (of_accepts h.2)
      | _ => exact .same h
  | .interfaceTy i, b, h => by
      cases b with
      | classTy c => exact .satisfied h
      | _ => exact .same h
  | .function s, b, h => by
      cases b with
      | named f => exact .function h
      | _ => exact .same h
  | .int, _, h | .float, _, h | .string, _, h | .bool, _, h | .char, _, h | .nil, _, h
  | .noValue, _, h | .error, _, h | .unknown _, _, h | .tuple _, _, h | .named _, _, h
  | .classTy _, _, h | .moduleTy _, _, h => .same h
termination_by structural a => a

theorem Ty.accepts_iff {a b : Ty} : a.accepts b = true ↔ Ty.Accepts a b := by
  constructor
  · exact Ty.Accepts.of_accepts
  · intro h
    induction h with
    | same h => exact Ty.accepts_of_same h
    | any t => rfl
    | satisfied h => exact h
    | list _ ih => exact ih
    | map _ _ ihkey ihvalue => simp [Ty.accepts, ihkey, ihvalue]
    | function h => exact h

/-!
# Antisymmetry
-/

theorem Ty.Accepts.antisymm {a b : Ty} (h : Ty.Accepts a b) (h' : Ty.Accepts b a) :
    a.same b = true := by
  induction h with
  | same h => exact h
  | any t =>
      cases h' with
      | same h' => exact Ty.same_symm h'
      | any => rfl
  | satisfied _ =>
      cases h' with
      | same h' => simp [Ty.same] at h'
  | list _ ih =>
      cases h' with
      | same h' => exact Ty.same_symm h'
      | list h' => exact ih h'
  | map _ _ ihkey ihvalue =>
      cases h' with
      | same h' => exact Ty.same_symm h'
      | map hkey hvalue => simp [Ty.same, ihkey hkey, ihvalue hvalue]
  | function _ =>
      cases h' with
      | same h' => simp [Ty.same] at h'

/-!
# Transitivity
-/

/--
The classes and interfaces that acceptance compares by more than their names: the type itself, or
those of the elements of a list and of the keys and values of a map.
-/
def Ty.nominals : Ty → List Ty
  | .list elem => elem.nominals
  | .map key value => key.nominals ++ value.nominals
  | .classTy c => [.classTy c]
  | .interfaceTy i => [.interfaceTy i]
  | _ => []
termination_by structural t => t

/-- Of some types, any two classes of one name have the same methods, and so do any two interfaces
of one name. -/
structure Ty.Consistent (ts : List Ty) : Prop where
  classes : ∀ c d : ClassTy, .classTy c ∈ ts → .classTy d ∈ ts → c.name = d.name →
    c.methods = d.methods
  interfaces : ∀ i j : InterfaceTy, .interfaceTy i ∈ ts → .interfaceTy j ∈ ts → i.name = j.name →
    i.methods = j.methods

theorem Ty.Consistent.of_subset {ts us : List Ty} (h : Ty.Consistent us) (hsubset : ts ⊆ us) :
    Ty.Consistent ts where
  classes c d hc hd := h.classes c d (hsubset hc) (hsubset hd)
  interfaces i j hi hj := h.interfaces i j (hsubset hi) (hsubset hj)

theorem ClassTy.satisfies_congr {c d : ClassTy} {i j : InterfaceTy} (hc : c.methods = d.methods)
    (hi : i.methods = j.methods) : c.satisfies i = d.satisfies j := by
  unfold ClassTy.satisfies ClassTy.unprovided? ClassTy.provides
  rw [hc, hi]

theorem Ty.Accepts.of_same_left {a b c : Ty} (h : a.same b = true) (hbc : Ty.Accepts b c)
    (hconsistent : Ty.Consistent (a.nominals ++ b.nominals)) : Ty.Accepts a c := by
  induction hbc generalizing a with
  | same h' => exact .same (Ty.same_trans h h')
  | any t =>
      cases a with
      | any => exact .any t
      | _ => simp [Ty.same] at h
  | @satisfied j c hsat =>
      cases a with
      | interfaceTy i =>
          -- interfaces are the same by name alone, but those of one name ask for the same methods
          have hname : i.name = j.name := by simpa [Ty.same] using h
          have hmethods := hconsistent.interfaces i j (by simp [Ty.nominals])
            (by simp [Ty.nominals]) hname
          exact .satisfied ((ClassTy.satisfies_congr rfl hmethods).trans hsat)
      | _ => simp [Ty.same] at h
  | list _ ih =>
      cases a with
      | list a => exact .list (ih h hconsistent)
      | _ => simp [Ty.same] at h
  | map _ _ ihkey ihvalue =>
      cases a with
      | map key value =>
          simp only [Ty.same, Bool.and_eq_true] at h
          have hkey := ihkey h.1 (hconsistent.of_subset (by grind [Ty.nominals]))
          have hvalue := ihvalue h.2 (hconsistent.of_subset (by grind [Ty.nominals]))
          exact .map hkey hvalue
      | _ => simp [Ty.same] at h
  | function hf =>
      cases a with
      | function s => exact .function (Signature.same_trans h hf)
      | _ => simp [Ty.same] at h

theorem Ty.Accepts.of_same_right {a b c : Ty} (hab : Ty.Accepts a b) (h : b.same c = true)
    (hconsistent : Ty.Consistent (b.nominals ++ c.nominals)) : Ty.Accepts a c := by
  induction hab generalizing c with
  | same h' => exact .same (Ty.same_trans h' h)
  | any t => exact .any c
  | @satisfied i b hsat =>
      cases c with
      | classTy c =>
          have hname : b.name = c.name := by simpa [Ty.same] using h
          have hmethods := hconsistent.classes b c (by simp [Ty.nominals])
            (by simp [Ty.nominals]) hname
          exact .satisfied ((ClassTy.satisfies_congr hmethods rfl).symm.trans hsat)
      | _ => simp [Ty.same] at h
  | list _ ih =>
      cases c with
      | list c => exact .list (ih h hconsistent)
      | _ => simp [Ty.same] at h
  | map _ _ ihkey ihvalue =>
      cases c with
      | map key value =>
          simp only [Ty.same, Bool.and_eq_true] at h
          have hkey := ihkey h.1 (hconsistent.of_subset (by grind [Ty.nominals]))
          have hvalue := ihvalue h.2 (hconsistent.of_subset (by grind [Ty.nominals]))
          exact .map hkey hvalue
      | _ => simp [Ty.same] at h
  | @function s f hf =>
      cases c with
      | named g =>
          rcases f with ⟨name, visibility, sig⟩
          rcases g with ⟨name', visibility', sig'⟩
          simp only [Ty.same, Bool.and_eq_true] at h
          exact .function (Signature.same_trans hf h.2)
      | _ => simp [Ty.same] at h

theorem Ty.Accepts.trans {a b c : Ty} (hab : Ty.Accepts a b) (hbc : Ty.Accepts b c)
    (hconsistent : Ty.Consistent (a.nominals ++ b.nominals ++ c.nominals)) : Ty.Accepts a c := by
  -- a class or a function that is accepted accepts only the same; lists and maps go by their parts
  induction hab generalizing c with
  | same h => exact .of_same_left h hbc (hconsistent.of_subset (List.subset_append_left _ _))
  | any t => exact .any c
  | satisfied hsat =>
      cases hbc with
      | same h =>
          exact (Ty.Accepts.satisfied hsat).of_same_right h
            (hconsistent.of_subset (by grind [Ty.nominals]))
  | list hab ih =>
      cases hbc with
      | same h => exact hab.list.of_same_right h (hconsistent.of_subset (by grind [Ty.nominals]))
      | list hbc => exact .list (ih hbc hconsistent)
  | map hkey hvalue ihkey ihvalue =>
      cases hbc with
      | same h =>
          exact (hkey.map hvalue).of_same_right h (hconsistent.of_subset (by grind [Ty.nominals]))
      | map hkey' hvalue' =>
          have hkeys := ihkey hkey' (hconsistent.of_subset (by grind [Ty.nominals]))
          have hvalues := ihvalue hvalue' (hconsistent.of_subset (by grind [Ty.nominals]))
          exact .map hkeys hvalues
  | function hf =>
      cases hbc with
      | same h =>
          exact (Ty.Accepts.function hf).of_same_right h
            (hconsistent.of_subset (by grind [Ty.nominals]))

/--
Acceptance is a partial order.  Every type accepts itself, types that accept each other are the
same, and acceptance is transitive on types in which a name stands for classes with the same methods
only, and for interfaces with the same methods only.  The last is asked of no other classes and
interfaces than those that acceptance looks into.
-/
theorem Ty.accepts_partialOrder :
    (∀ t : Ty, t.accepts t = true) ∧
    (∀ a b : Ty, a.accepts b = true → b.accepts a = true → a.same b = true) ∧
    (∀ a b c : Ty, Ty.Consistent (a.nominals ++ b.nominals ++ c.nominals) →
      a.accepts b = true → b.accepts c = true → a.accepts c = true) := by
  refine ⟨Ty.accepts_refl, ?_, ?_⟩
  · intro a b hab hba
    exact (Ty.accepts_iff.mp hab).antisymm (Ty.accepts_iff.mp hba)
  · intro a b c hconsistent hab hbc
    exact Ty.accepts_iff.mpr ((Ty.accepts_iff.mp hab).trans (Ty.accepts_iff.mp hbc) hconsistent)

namespace Sample

def countMethod : NamedFunction :=
  ⟨"count", .isPublic, ⟨[], .int⟩⟩

def counting : Ty :=
  .interfaceTy ⟨"Countable", [countMethod], .isPublic⟩

def counted : ClassTy :=
  ⟨"Basket", [⟨"size", .int, false, none⟩], [countMethod], [], .isPublic⟩

end Sample

/-- Lists of baskets accept each other with and without the methods of baskets, and are the same.
Those by name may stand where lists of something countable by anything are expected, since they may
stand where lists of something countable by name are. -/
theorem Ty.accepts_partialOrder_baskets :
    (Ty.list (.classTy Sample.counted)).same (.list (.classTy (.forward "Basket" .isPublic))) =
      true ∧
    Ty.Consistent ((Ty.map .any (.list Sample.counting)).nominals ++
      (Ty.map .string (.list Sample.counting)).nominals ++
      (Ty.map .string (.list (.classTy Sample.counted))).nominals) ∧
    (Ty.map .any (.list Sample.counting)).accepts
      (.map .string (.list (.classTy Sample.counted))) = true := by
  have hconsistent : Ty.Consistent ((Ty.map .any (.list Sample.counting)).nominals ++
      (Ty.map .string (.list Sample.counting)).nominals ++
      (Ty.map .string (.list (.classTy Sample.counted))).nominals) := by
    constructor <;> simp_all [Ty.nominals, Sample.counting]
  refine ⟨?_, hconsistent, ?_⟩
  · exact Ty.accepts_partialOrder.2.1 _ _ (by decide) (by decide)
  · exact Ty.accepts_partialOrder.2.2 _ _ _ hconsistent (by decide) (by decide)

/-- A class that is known by its name only is the same as the one with its methods, and does not
satisfy what that satisfies. -/
example :
    Sample.counting.accepts (.classTy Sample.counted) = true ∧
      (Ty.classTy Sample.counted).accepts (.classTy (.forward "Basket" .isPublic)) = true ∧
      Sample.counting.accepts (.classTy (.forward "Basket" .isPublic)) = false := by
  decide

end StaticTyping
