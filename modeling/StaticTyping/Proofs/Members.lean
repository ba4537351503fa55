import Mathlib.Data.List.Nodup
import StaticTyping.Library.Standard
import StaticTyping.SymbolTable
import StaticTyping.Ty.Capability

/-!
# Members by their names

A module that is imported becomes a scope, in which the last export of a name counts.  Where the
names of the exports differ, as those of the standard packages do, the scope has under each name
the member of the module.
-/

namespace StaticTyping

/-!
# The last value of a name
-/

def valueFor {α : Type} (name : String) (pair : String × α) : Option α :=
  if pair.1 = name then some pair.2 else none

theorem Dict.get?_insertAll {α : Type} (d : Dict α) (pairs : List (String × α)) (name : String) :
    (d.insertAll pairs).get? name =
      (pairs.filterMap (valueFor name)).getLast?.or (d.get? name) := by
  induction pairs generalizing d with
  | nil => rfl
  | cons pair pairs ih =>
      refine (ih (d.insert pair.1 pair.2)).trans ?_
      by_cases hname : pair.1 = name
      · have hvalue : valueFor name pair = some pair.2 := if_pos hname
        rw [List.filterMap_cons_some hvalue, List.getLast?_cons, ← hname, get?_insert_self]
        cases (pairs.filterMap (valueFor pair.1)).getLast? <;> rfl
      · have hvalue : valueFor name pair = none := if_neg hname
        rw [List.filterMap_cons_none hvalue, get?_insert_of_ne _ _ (Ne.symm hname)]

theorem Dict.isSome_get?_insertAll {α : Type} (pairs : List (String × α)) (name : String) :
    ((Dict.empty.insertAll pairs).get? name).isSome ↔ name ∈ pairs.map Prod.fst := by
  rw [get?_insertAll, get?_empty, Option.or_none, List.getLast?_isSome, ne_eq,
    List.filterMap_eq_nil_iff]
  unfold valueFor
  simp

theorem Dict.mem_of_get?_insertAll {α : Type} {pairs : List (String × α)} {name : String} {a : α}
    (h : (Dict.empty.insertAll pairs).get? name = some a) : (name, a) ∈ pairs := by
  rw [get?_insertAll, get?_empty, Option.or_none] at h
  obtain ⟨pair, hpair, hvalue⟩ := List.mem_filterMap.mp (List.mem_of_getLast? h)
  unfold valueFor at hvalue
  split at hvalue
  next hname =>
    cases hvalue
    rw [← hname]
    exact hpair
  next => cases hvalue

/-!
# Members of modules
-/

namespace ModuleTy

variable {m : ModuleTy} {name : String} {ty : Ty}

theorem mem_members_of_member? (h : m.member? name = some ty) : (name, ty) ∈ m.members := by
  rcases Option.map_eq_some_iff.mp h with ⟨⟨other, ty'⟩, hfind, rfl⟩
  have hname : other = name := by simpa using List.find?_some hfind
  rw [← hname]
  exact List.mem_of_find?_eq_some hfind

theorem exists_member?_of_mem (h : (name, ty) ∈ m.members) : ∃ ty', m.member? name = some ty' := by
  apply Option.isSome_iff_exists.mp
  unfold member?
  rw [Option.isSome_map, List.find?_isSome]
  exact ⟨(name, ty), h, beq_self_eq_true name⟩

end ModuleTy

theorem Scope.get?_ofModule_of_nodup {m : ModuleTy} (h : (m.members.map Prod.fst).Nodup)
    (name : String) : (Scope.ofModule m).get? name = m.member? name := by
  apply Option.ext
  intro ty
  have hunique : ∀ {ty ty'}, (name, ty) ∈ m.members → (name, ty') ∈ m.members → ty = ty' := by
    intro ty ty' hty hty'
    exact congrArg Prod.snd (List.inj_on_of_nodup_map h hty hty' rfl)
  constructor
  · intro hget
    have hmem := Dict.mem_of_get?_insertAll hget
    rcases ModuleTy.exists_member?_of_mem hmem with ⟨ty', hmember⟩
    rw [hmember, hunique hmem (ModuleTy.mem_members_of_member? hmember)]
  · intro hmember
    have hmem := ModuleTy.mem_members_of_member? hmember
    have hsome := (Dict.isSome_get?_insertAll m.members name).mpr (List.mem_map_of_mem hmem)
    rcases Option.isSome_iff_exists.mp hsome with ⟨ty', hget⟩
    rw [hunique hmem (Dict.mem_of_get?_insertAll hget)]
    exact hget

theorem Library.get?_ofModule_standard {package : String} {m : ModuleTy}
    (h : Library.standard? package = some m) (name : String) :
    (Scope.ofModule m).get? name = m.member? name := by
  have hnodup : (m.members.map Prod.fst).Nodup :=
    Library.of_standard? (P := fun m => (m.members.map Prod.fst).Nodup) (by decide) h
  exact Scope.get?_ofModule_of_nodup hnodup name

/-!
# Standard packages on demand
-/

/-- The standard packages that are imported on demand, with the local names they get. -/
def Library.onDemand : List (String × String) :=
  [("aura/strings", "strings"), ("aura/lists", "lists"), ("aura/errors", "errors")]

theorem Library.mem_onDemand {ty : Ty} {p : String × String} (h : ty.builtinPackage? = some p) :
    p ∈ onDemand := by
  unfold Ty.builtinPackage? at h
  split at h
  · cases h
    exact .head _
  · cases h
    exact .tail _ (.head _)
  · cases h
    exact .tail _ (.tail _ (.head _))
  · cases h

theorem Library.onDemand_injective :
    ∀ p ∈ onDemand, ∀ q ∈ onDemand, p.2 = q.2 → p = q := by
  decide

theorem Library.standard?_of_localName_eq {p q : String × String} (hp : p ∈ onDemand)
    (hq : q ∈ onDemand) (h : p.2 = q.2) {m : ModuleTy} (hm : standard? q.1 = some m) :
    standard? p.1 = some m := by
  rwa [onDemand_injective p hp q hq h]

theorem Library.standard?_of_mem_onDemand {p : String × String} (h : p ∈ Library.onDemand) :
    ∃ m, Library.standard? p.1 = some m := by
  have hall : ∀ p ∈ Library.onDemand, (Library.standard? p.1).isSome := by decide
  exact Option.isSome_iff_exists.mp (hall p h)

end StaticTyping
