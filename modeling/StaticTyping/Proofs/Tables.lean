import StaticTyping.Checker.Session
import StaticTyping.Proofs.Members
import StaticTyping.Proofs.Typing

/-!
# Well-formed tables

Every type that a session knows is well formed: those bound in its namespaces, those its files
have imported, and those of the packages it has compiled.  Local names that are reserved for
standard packages stand for nothing else.
-/

namespace StaticTyping

variable {D : Discipline}

/-!
# Names kept for standard packages
-/

/-- A file keeps the local name of a standard package for it: if it has imported anything under the
name, then the package. -/
def SymbolTable.Reserves (t : SymbolTable) (file : String) (p : String × String) : Prop :=
  ∀ scope, t.imported? file p.2 = some scope →
    ∃ m, Library.standard? p.1 = some m ∧ scope = .ofModule m

theorem SymbolTable.Reserves.addModule {t : SymbolTable} {file : String} {p : String × String}
    (h : t.Reserves file p) (file' : String) {localName : String} {m : ModuleTy}
    (hm : p.2 = localName → Library.standard? p.1 = some m) :
    (t.addModule file' localName m).Reserves file p := by
  intro scope hscope
  by_cases hsame : file = file' ∧ p.2 = localName
  · rcases hsame with ⟨rfl, hname⟩
    rw [hname, imported?_addModule_self] at hscope
    cases hscope
    exact ⟨m, hm hname, rfl⟩
  · rw [imported?_addModule_of_ne _ _ (Decidable.not_and_iff_not_or_not.mp hsame)] at hscope
    exact h scope hscope

/-!
# Scopes
-/

def Scope.WellFormed (D : Discipline) (scope : Scope) : Prop :=
  ∀ name ty, scope.get? name = some ty → ty.WellFormed D

def Scopes.WellFormed (D : Discipline) (s : Scopes) : Prop :=
  ∀ scope ∈ s.toList, Scope.WellFormed D scope

namespace Scope.WellFormed

theorem empty : Scope.WellFormed D .empty := by
  intro name ty h
  cases h

theorem insert {scope : Scope} (h : Scope.WellFormed D scope) (name : String) {ty : Ty}
    (hty : ty.WellFormed D) : Scope.WellFormed D (scope.insert name ty) := by
  intro other found hfound
  rw [Dict.get?_insert] at hfound
  split at hfound
  · cases hfound
    exact hty
  · exact h other found hfound

theorem insertAll {scope : Scope} (h : Scope.WellFormed D scope) {pairs : List (String × Ty)}
    (hpairs : ∀ pair ∈ pairs, pair.2.WellFormed D) : Scope.WellFormed D (scope.insertAll pairs) := by
  induction pairs generalizing scope with
  | nil => exact h
  | cons pair pairs ih =>
      exact ih (h.insert pair.1 (hpairs pair List.mem_cons_self)) fun p hp =>
        hpairs p (List.mem_cons_of_mem _ hp)

end Scope.WellFormed

theorem Ty.WellFormed.of_mem_members {m : ModuleTy} (h : (Ty.moduleTy m).WellFormed D)
    {pair : String × Ty} (hpair : pair ∈ m.members) : pair.2.WellFormed D := by
  cases h with
  | atom h => cases h
  | moduleTy hfunctions hclasses hvalues =>
      rcases List.mem_append.mp hpair with hpair | hpair
      · rcases List.mem_append.mp hpair with hpair | hpair
        · rcases List.mem_map.mp hpair with ⟨f, hf, rfl⟩
          exact hfunctions f hf
        · rcases List.mem_map.mp hpair with ⟨c, hc, rfl⟩
          exact hclasses c hc
      · rcases List.mem_map.mp hpair with ⟨v, hv, rfl⟩
        exact hvalues v hv

theorem Scope.WellFormed.ofModule {m : ModuleTy} (h : (Ty.moduleTy m).WellFormed D) :
    Scope.WellFormed D (.ofModule m) :=
  Scope.WellFormed.empty.insertAll fun _ hpair => h.of_mem_members hpair

theorem Scope.WellFormed.toModule {scope : Scope} (h : Scope.WellFormed D scope) (name : String) :
    (Ty.moduleTy (scope.toModule name)).WellFormed D := by
  refine .moduleTy (fun f hf => ?_) (fun c hc => ?_) fun v hv => ?_
  · rcases List.mem_filterMap.mp hf with ⟨⟨key, ty⟩, hmem, hpick⟩
    have hty := h key ty (Dict.get?_eq_some_of_mem hmem)
    cases ty with
    | named g =>
        cases hpick
        exact hty
    | _ => cases hpick
  · rcases List.mem_filterMap.mp hc with ⟨⟨key, ty⟩, hmem, hpick⟩
    have hty := h key ty (Dict.get?_eq_some_of_mem hmem)
    cases ty with
    | classTy d =>
        cases hpick
        exact hty
    | _ => cases hpick
  · rcases List.mem_filterMap.mp hv with ⟨⟨key, ty⟩, hmem, hpick⟩
    have hty := h key ty (Dict.get?_eq_some_of_mem hmem)
    cases ty with
    | named g => cases hpick
    | classTy d => cases hpick
    | _ =>
        cases hpick
        exact hty

namespace Scopes.WellFormed

variable {s : Scopes}

theorem empty : Scopes.WellFormed D .empty := by
  intro scope hscope
  cases List.mem_singleton.mp hscope
  exact .empty

theorem push (h : s.WellFormed D) : s.push.WellFormed D := by
  intro scope hscope
  rcases List.mem_cons.mp hscope with rfl | hscope
  · exact .empty
  · exact h scope hscope

theorem bind (h : s.WellFormed D) (name : String) {ty : Ty} (hty : ty.WellFormed D) :
    (s.bind name ty).WellFormed D := by
  rcases s with ⟨nested, root⟩
  cases nested with
  | nil =>
      intro scope hscope
      cases List.mem_singleton.mp hscope
      exact (h root List.mem_cons_self).insert name hty
  | cons inner outer =>
      intro scope hscope
      rcases List.mem_cons.mp hscope with rfl | hscope
      · exact (h inner List.mem_cons_self).insert name hty
      · exact h scope (List.mem_cons_of_mem _ hscope)

theorem lookup? (h : s.WellFormed D) {name : String} {ty : Ty}
    (hlookup : s.lookup? name = some ty) : ty.WellFormed D := by
  rcases List.exists_of_findSome?_eq_some hlookup with ⟨scope, hscope, hget⟩
  exact h scope hscope name ty hget

theorem currentClass (h : s.WellFormed D) {c : ClassTy} (hc : (Ty.classTy c).WellFormed D) :
    (Ty.classTy (s.currentClass c)).WellFormed D := by
  unfold Scopes.currentClass
  split
  next current hlookup =>
    split
    · exact h.lookup? hlookup
    · exact hc
  · exact hc

theorem currentInterface (h : s.WellFormed D) {i : InterfaceTy}
    (hi : (Ty.interfaceTy i).WellFormed D) :
    (Ty.interfaceTy (s.currentInterface i)).WellFormed D := by
  unfold Scopes.currentInterface
  split
  next current hlookup =>
    split
    · exact h.lookup? hlookup
    · exact hi
  · exact hi

end Scopes.WellFormed

/-!
# Symbol tables, sessions and states
-/

structure SymbolTable.WellFormed (D : Discipline) (t : SymbolTable) : Prop where
  spaces : ∀ {space scopes}, t.spaces.get? space = some scopes → scopes.WellFormed D
  imports : ∀ {file localName scope}, t.imported? file localName = some scope →
    Scope.WellFormed D scope
  reserved : ∀ {file}, ∀ p ∈ Library.onDemand, p.2 ∈ D.reserved → t.Reserves file p

/-- All types that a session knows are well formed. -/
structure Session.WellFormed (D : Discipline) (σ : Session) : Prop where
  symbols : σ.symbols.WellFormed D
  compiled : ∀ {package m}, σ.compiled.get? package = some m → (Ty.moduleTy m).WellFormed D

/-- All types that a state knows are well formed. -/
structure State.WellFormed (D : Discipline) (s : State) : Prop where
  session : s.session.WellFormed D
  classes : ∀ c ∈ s.classes, (Ty.classTy c).WellFormed D

namespace SymbolTable

variable {t : SymbolTable}

theorem lookup?_eq_scopesOf (t : SymbolTable) (space name : String) :
    t.lookup? space name = (t.scopesOf space).lookup? name := by
  unfold lookup? scopesOf
  cases t.spaces.get? space <;> rfl

namespace WellFormed

theorem empty : SymbolTable.WellFormed D .empty where
  spaces h := by cases h
  imports h := by cases h
  reserved _ _ _ _ h := by cases h

theorem scopesOf (h : t.WellFormed D) (space : String) : (t.scopesOf space).WellFormed D := by
  unfold SymbolTable.scopesOf
  cases hspace : t.spaces.get? space with
  | none => exact .empty
  | some scopes => exact h.spaces hspace

theorem lookup? (h : t.WellFormed D) {space name : String} {ty : Ty}
    (hlookup : t.lookup? space name = some ty) : ty.WellFormed D :=
  (h.scopesOf space).lookup? (t.lookup?_eq_scopesOf space name ▸ hlookup)

theorem setScopes (h : t.WellFormed D) (space : String) {s : Scopes} (hs : s.WellFormed D) :
    (t.setScopes space s).WellFormed D where
  spaces {other scopes} hother := by
    simp only [SymbolTable.setScopes, Dict.get?_insert] at hother
    split at hother
    · cases hother
      exact hs
    · exact h.spaces hother
  imports := h.imports
  reserved := h.reserved

theorem bind (h : t.WellFormed D) (space name : String) {ty : Ty} (hty : ty.WellFormed D) :
    (t.bind space name ty).WellFormed D :=
  h.setScopes space ((h.scopesOf space).bind name hty)

theorem enter (h : t.WellFormed D) (space : String) : (t.enter space).WellFormed D :=
  h.setScopes space (h.scopesOf space).push

theorem addModule (h : t.WellFormed D) (file : String) {localName : String} {m : ModuleTy}
    (hm : (Ty.moduleTy m).WellFormed D)
    (hname : ∀ p ∈ Library.onDemand, p.2 ∈ D.reserved → p.2 = localName →
      Library.standard? p.1 = some m) : (t.addModule file localName m).WellFormed D where
  spaces := h.spaces
  imports {file' localName' scope} hscope := by
    by_cases hsame : file' = file ∧ localName' = localName
    · rcases hsame with ⟨rfl, rfl⟩
      rw [imported?_addModule_self] at hscope
      cases hscope
      exact .ofModule hm
    · rw [imported?_addModule_of_ne _ _ (Decidable.not_and_iff_not_or_not.mp hsame)] at hscope
      exact h.imports hscope
  reserved p hp hreserved := (h.reserved p hp hreserved).addModule file (hname p hp hreserved)

end WellFormed
end SymbolTable

end StaticTyping
