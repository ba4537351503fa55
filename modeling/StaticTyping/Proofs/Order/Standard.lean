import StaticTyping.Proofs.Soundness.File

/-!
# Standard packages on demand

The members of texts, lists and errors are found in standard packages, which a file sees from the
first use on.  That they have become visible is the only lasting trace of a class that imports
nothing and is known already.  Checks that name none of these packages do not notice it.
-/

namespace StaticTyping

open CheckM

/-!
# Packages made visible
-/

namespace SymbolTable

variable {t : SymbolTable} {file : String} {p q : String × String}

theorem addStandard_eq_self {package localName : String}
    (h : t.imported? file localName ≠ none) : t.addStandard file package localName = t := by
  unfold addStandard
  cases hscope : t.imported? file localName with
  | none => exact (h hscope).elim
  | some scope => rfl

theorem imported?_addStandard_of_ne (t : SymbolTable) {file package localName name : String}
    (h : name ≠ localName) :
    (t.addStandard file package localName).imported? file name = t.imported? file name := by
  unfold addStandard
  split
  · exact t.imported?_addModule_of_ne _ (.inr h)
  · rfl

theorem imported?_addStandard {package localName name : String}
    (h : t.imported? file name ≠ none) :
    (t.addStandard file package localName).imported? file name ≠ none := by
  by_cases hname : name = localName
  · rw [addStandard_eq_self (hname ▸ h)]
    exact h
  · rw [t.imported?_addStandard_of_ne hname]
    exact h

theorem addStandard_idempotent (t : SymbolTable) (file package localName : String) :
    (t.addStandard file package localName).addStandard file package localName =
      t.addStandard file package localName := by
  cases hscope : t.imported? file localName with
  | some scope =>
      have h : t.imported? file localName ≠ none := by simp [hscope]
      rw [addStandard_eq_self h, addStandard_eq_self h]
  | none =>
      cases hm : Library.standard? package with
      | some m =>
          apply addStandard_eq_self
          simp [addStandard, hscope, hm]
      | none => simp [addStandard, hscope, hm]

theorem addModule_comm (t : SymbolTable) (file : String) {a b : String} (m n : ModuleTy)
    (h : a ≠ b) :
    (t.addModule file a m).addModule file b n = (t.addModule file b n).addModule file a m := by
  have himports : ∀ (u : SymbolTable) (c : String) (k : ModuleTy),
      (u.addModule file c k).importsOf file = (u.importsOf file).insert c (.ofModule k) := by
    intro u c k
    simp [addModule, importsOf]
  unfold addModule at himports ⊢
  simp only [himports]
  congr 1
  apply Dict.ext_get?
  intro other
  simp only [Dict.get?_insert]
  split
  · rw [Dict.insert_insert_of_ne _ _ _ h]
  · rfl

theorem addStandard_comm_of_imported (t : SymbolTable) {file : String} (package localName : String)
    {package' localName' : String} (h : t.imported? file localName' ≠ none) :
    (t.addStandard file package localName).addStandard file package' localName' =
      (t.addStandard file package' localName').addStandard file package localName := by
  rw [addStandard_eq_self h, addStandard_eq_self (imported?_addStandard h)]

theorem addStandard_comm (t : SymbolTable) (file : String) (hp : p ∈ Library.onDemand)
    (hq : q ∈ Library.onDemand) :
    (t.addStandard file p.1 p.2).addStandard file q.1 q.2 =
      (t.addStandard file q.1 q.2).addStandard file p.1 p.2 := by
  by_cases hne : p.2 = q.2
  · rw [Library.onDemand_injective p hp q hq hne]
  -- a package whose local name is taken is not added, before or after the other one
  by_cases hpfree : t.imported? file p.2 = none
  · by_cases hqfree : t.imported? file q.2 = none
    · cases hm : Library.standard? p.1 with
      | none => simp [addStandard, hm]
      | some m =>
          cases hn : Library.standard? q.1 with
          | none => simp [addStandard, hn]
          | some n =>
              have hfirst : t.addStandard file p.1 p.2 = t.addModule file p.2 m := by
                simp [addStandard, hpfree, hm]
              have hsecond : t.addStandard file q.1 q.2 = t.addModule file q.2 n := by
                simp [addStandard, hqfree, hn]
              have hqstill : (t.addModule file p.2 m).imported? file q.2 = t.imported? file q.2 :=
                t.imported?_addModule_of_ne m (.inr (Ne.symm hne))
              have hpstill : (t.addModule file q.2 n).imported? file p.2 = t.imported? file p.2 :=
                t.imported?_addModule_of_ne n (.inr hne)
              rw [hfirst, hsecond]
              simp only [addStandard, hqstill, hpstill, hpfree, hqfree, hm, hn]
              exact t.addModule_comm file m n hne
    · exact t.addStandard_comm_of_imported p.1 p.2 hqfree
  · exact (t.addStandard_comm_of_imported q.1 q.2 hpfree).symm

def addStandards (t : SymbolTable) (file : String) (ps : List (String × String)) : SymbolTable :=
  ps.foldl (fun t p => t.addStandard file p.1 p.2) t

theorem addStandards_append (t : SymbolTable) (file : String) (ps qs : List (String × String)) :
    t.addStandards file (ps ++ qs) = (t.addStandards file ps).addStandards file qs :=
  List.foldl_append

theorem imported?_addStandards {name : String} (h : t.imported? file name ≠ none)
    (ps : List (String × String)) : (t.addStandards file ps).imported? file name ≠ none := by
  induction ps generalizing t with
  | nil => exact h
  | cons p ps ih => exact ih (imported?_addStandard h)

theorem addStandards_comm (t : SymbolTable) (file : String) {ps qs : List (String × String)}
    (hps : ∀ p ∈ ps, p ∈ Library.onDemand) (hqs : ∀ q ∈ qs, q ∈ Library.onDemand) :
    (t.addStandards file ps).addStandards file qs =
      (t.addStandards file qs).addStandards file ps := by
  have hone : ∀ {p}, p ∈ Library.onDemand → ∀ t : SymbolTable,
      (t.addStandard file p.1 p.2).addStandards file qs =
        (t.addStandards file qs).addStandard file p.1 p.2 := by
    intro p hp
    induction qs with
    | nil => exact fun _ => rfl
    | cons q qs ih =>
        rcases List.forall_mem_cons.mp hqs with ⟨hq, hqs⟩
        intro t
        show ((t.addStandard file p.1 p.2).addStandard file q.1 q.2).addStandards file qs = _
        rw [t.addStandard_comm file hp hq]
        exact ih hqs _
  induction ps generalizing t with
  | nil => rfl
  | cons p ps ih =>
      rcases List.forall_mem_cons.mp hps with ⟨hp, hps⟩
      show ((t.addStandard file p.1 p.2).addStandards file ps).addStandards file qs = _
      rw [ih _ hps, hone hp]
      rfl

def standardShift (file : String) (p : String × String) (imports : Dict (Dict Scope)) :
    Dict (Dict Scope) :=
  ((⟨.empty, imports, 0⟩ : SymbolTable).addStandard file p.1 p.2).imports

theorem shiftImports_standardShift (t : SymbolTable) (file : String) (p : String × String) :
    t.shiftImports (standardShift file p) = t.addStandard file p.1 p.2 := by
  have hscope : (⟨.empty, t.imports, 0⟩ : SymbolTable).imported? file p.2 = t.imported? file p.2 :=
    rfl
  unfold shiftImports standardShift addStandard
  rw [hscope]
  cases t.imported? file p.2 with
  | some scope => rfl
  | none => cases Library.standard? p.1 <;> rfl

theorem spaces_addStandards (t : SymbolTable) (file : String) (ps : List (String × String)) :
    (t.addStandards file ps).spaces = t.spaces := by
  induction ps generalizing t with
  | nil => rfl
  | cons p ps ih => exact (ih _).trans (t.spaces_addStandard file p.1 p.2)

theorem rootExits_addStandards (t : SymbolTable) (file : String) (ps : List (String × String)) :
    (t.addStandards file ps).rootExits = t.rootExits := by
  induction ps generalizing t with
  | nil => rfl
  | cons p ps ih =>
      refine (ih _).trans ?_
      show (t.addStandard file p.1 p.2).rootExits = t.rootExits
      unfold addStandard
      split <;> rfl

theorem imports_addStandards_congr {u : SymbolTable} (h : t.imports = u.imports)
    (file : String) (ps : List (String × String)) :
    (t.addStandards file ps).imports = (u.addStandards file ps).imports := by
  induction ps generalizing t u with
  | nil => exact h
  | cons p ps ih =>
      apply ih
      show (t.addStandard file p.1 p.2).imports = (u.addStandard file p.1 p.2).imports
      rw [← shiftImports_standardShift, ← shiftImports_standardShift]
      exact congrArg (standardShift file p) h

end SymbolTable

def Env.adding (env : Env) {p : String × String} (hp : p ∈ Library.onDemand) : Surroundings where
  toEnv := env
  shift := SymbolTable.standardShift env.file p
  sees name := name ≠ p.2
  imports := False
  seen h t := by
    rw [SymbolTable.shiftImports_standardShift]
    exact t.imported?_addStandard_of_ne h
  standard h t := by
    rw [SymbolTable.shiftImports_standardShift, SymbolTable.shiftImports_standardShift]
    exact t.addStandard_comm env.file hp (Library.mem_onDemand h)
  standardSeen {_ package localName} h t := by
    rw [SymbolTable.shiftImports_standardShift]
    by_cases hname : localName = p.2
    · have hsame : (package, localName) = p :=
        Library.onDemand_injective _ (Library.mem_onDemand h) p hp hname
      subst hsame
      rw [t.addStandard_idempotent]
    · exact SymbolTable.imported?_addStandard_of_ne _ hname
  unmoved h := h.elim

theorem Env.shifted_adding (env : Env) {p : String × String} (hp : p ∈ Library.onDemand)
    (s : State) :
    (env.adding hp).shifted s = onSymbols (·.addStandard env.file p.1 p.2) s := by
  show onSymbols (·.shiftImports (SymbolTable.standardShift env.file p)) s = _
  simp only [SymbolTable.shiftImports_standardShift]

def State.Imported (env : Env) (s : State) (localName : String) : Prop :=
  s.session.symbols.imported? env.file localName ≠ none

/-!
# Trees that import nothing
-/

def Source.StmtKind.isImport : Source.StmtKind → Bool
  | .importOne _ _ | .importMany _ => true
  | _ => false

/-- What a discipline asks of a tree that imports nothing and names no import of some local
names. -/
def Discipline.closed (D : Discipline) (hidden : List String) : Source.Condition where
  stmt k := !k.isImport
  ty t := t.written D && t.names.all fun name =>
    (splitDot? name).all fun parts => !hidden.contains parts.1
  params := D.condition.params
  name n := !hidden.contains n

theorem Premises.closed {D : Discipline} {env : Surroundings} {hidden : List String}
    (hload : env.load.Sound D) (hsees : ∀ {name}, name ∉ hidden → env.sees name) :
    Premises D env (D.closed hidden) where
  load := hload
  ty {t} h := by
    rcases Bool.and_eq_true_iff.mp h with ⟨hwritten, hnames⟩
    refine ⟨hwritten, fun name hname localName member hsplit => hsees ?_⟩
    have hname := List.all_eq_true.mp hnames name hname
    rw [hsplit] at hname
    simpa using hname
  params h := h
  name h := hsees (by simpa [Discipline.closed] using h)
  importOne h := Bool.false_ne_true h |>.elim
  importMany h := Bool.false_ne_true h |>.elim

/-- Beside its own namespace and the enclosing constructs, nothing has changed but that standard
packages have become visible. -/
structure State.Demands (env : Env) (s t : State) : Prop where
  imports : ∃ ps, (∀ p ∈ ps, p ∈ Library.onDemand) ∧
    t.session.symbols.imports = (s.session.symbols.addStandards env.file ps).imports
  spaces : ∀ {space}, space ≠ env.space →
    t.session.symbols.spaces.get? space = s.session.symbols.spaces.get? space
  compiled : t.session.compiled = s.session.compiled
  requested : t.session.requested = s.session.requested
  report : t.report = s.report

theorem State.Demands.trans {env : Env} {s t u : State} (h : s.Demands env t)
    (h' : t.Demands env u) : s.Demands env u := by
  rcases h.imports with ⟨ps, hps, himports⟩
  rcases h'.imports with ⟨qs, hqs, himports'⟩
  refine ⟨⟨ps ++ qs, List.forall_mem_append.mpr ⟨hps, hqs⟩, ?_⟩,
    fun hspace => (h'.spaces hspace).trans (h.spaces hspace), h'.compiled.trans h.compiled,
    h'.requested.trans h.requested, h'.report.trans h.report⟩
  rw [himports', SymbolTable.addStandards_append]
  exact SymbolTable.imports_addStandards_congr himports env.file qs

def Frame.onDemand (env : Env) (D : Discipline) (hidden : List String) :
    Frame env (D.closed hidden) where
  rel := State.Demands env
  imports := False
  one h := .inl (Bool.false_ne_true h)
  many h := .inl (Bool.false_ne_true h)
  refl _ := ⟨⟨[], fun _ h => absurd h List.not_mem_nil, rfl⟩, fun _ => rfl, rfl, rfl, rfl⟩
  trans := .trans
  declare _ _ s := ⟨⟨[], fun _ h => absurd h List.not_mem_nil, rfl⟩,
    fun hspace => s.session.symbols.get?_setScopes_of_ne _ hspace, rfl, rfl, rfl⟩
  standard {_ package localName} h s := by
    rw [importStandard_apply]
    refine ⟨⟨[(package, localName)], List.forall_mem_singleton.mpr (Library.mem_onDemand h), rfl⟩,
      fun {space} _ => ?_, rfl, rfl, rfl⟩
    show (s.session.symbols.addStandard env.file package localName).spaces.get? space = _
    rw [SymbolTable.spaces_addStandard]
  importModule h := h.elim
  inScope {s t} h := by
    refine ⟨?_, fun {space} hspace => ?_, h.compiled, h.requested, h.report⟩
    · rcases h.imports with ⟨ps, hps, himports⟩
      have hentered : (s.session.symbols.enter env.space).imports = s.session.symbols.imports := rfl
      exact ⟨ps, hps, (SymbolTable.imports_leave _ _).trans
        (himports.trans (SymbolTable.imports_addStandards_congr hentered _ _))⟩
    · exact ((t.session.symbols.get?_leave_of_ne hspace).trans (h.spaces hspace)).trans
        (s.session.symbols.get?_setScopes_of_ne _ hspace)
  inStmt h := ⟨h.imports, h.spaces, h.compiled, h.requested, h.report⟩
  inExpr h := ⟨h.imports, h.spaces, h.compiled, h.requested, h.report⟩
  inClass h := ⟨h.imports, h.spaces, h.compiled, h.requested, h.report⟩
  report h := h.elim

end StaticTyping
