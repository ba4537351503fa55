import StaticTyping.Proofs.Order.Header
import StaticTyping.Proofs.Order.Run

/-!
# Two statements exchanged in both passes

If two neighbouring statements change places in every phase that both take part in, then the first
pass succeeds with them exchanged as well, and what it finds is the same but for their places.
-/

namespace StaticTyping

open CheckM

variable {env : Env} {s t u : State}

/-!
# Phases
-/

def Checker.Phase.Reporting (env : Env) (phase : Checker.Phase) : Prop :=
  ∀ stmt x, phase stmt = some x → x.Reporting env

theorem Checker.fillSlot_reporting {phase : Checker.Phase} (h : phase.Reporting env) (slot : Slot) :
    (fillSlot phase slot).Reporting env :=
  Closure.fillSlot _ (Closure.attempts _ trivial) fun x hx => h slot.stmt x hx

theorem Checker.fillSlot_idle {phase : Checker.Phase} {slot slot' : Slot}
    (h : phase slot.stmt = none) :
    (fillSlot phase slot).Succeeds env s slot' t ↔
      slot' = slot ∧ t = s ∧ s.report.reported = false := by
  unfold fillSlot
  rw [h]
  exact Succeeds.pure_iff

theorem Checker.fillSlot_iff {phase : Checker.Phase} {slot slot' : Slot} {x : CheckM Item}
    (h : phase slot.stmt = some x) :
    (fillSlot phase slot).Succeeds env s slot' t ↔
      ∃ item, slot' = ⟨slot.stmt, some item⟩ ∧ x.Succeeds env s item t := by
  unfold fillSlot
  rw [h, Succeeds.bind_iff fun o => by cases o <;> exact .pure _]
  constructor
  · rintro ⟨o, t', ho, hslot⟩
    rcases Succeeds.attempt_iff.mp ho with ⟨item, rfl, hx⟩
    rcases Succeeds.pure_iff.mp hslot with ⟨rfl, rfl, _⟩
    exact ⟨item, rfl, hx⟩
  · rintro ⟨item, rfl, hx⟩
    exact ⟨some item, t, Succeeds.attempt_iff.mpr ⟨item, rfl, hx⟩,
      Succeeds.pure_iff.mpr ⟨rfl, rfl, hx.quiet⟩⟩

theorem Checker.fillSlot_stmt {phase : Checker.Phase} {slot slot' : Slot}
    (h : (fillSlot phase slot).Succeeds env s slot' t) : slot'.stmt = slot.stmt := by
  cases hphase : phase slot.stmt with
  | none =>
      rcases (fillSlot_idle hphase).mp h with ⟨rfl, _, _⟩
      rfl
  | some x =>
      rcases (fillSlot_iff hphase).mp h with ⟨item, rfl, _⟩
      rfl

def Checker.Phase.Exchanges (env : Env) (phase : Checker.Phase) (s₁ s₂ : Source.Stmt) : Prop :=
  ∀ (slot₁ slot₂ slot₁' slot₂' : Slot) (s t u : State), slot₁.stmt = s₁ → slot₂.stmt = s₂ →
    (fillSlot phase slot₁).Succeeds env s slot₁' t →
    (fillSlot phase slot₂).Succeeds env t slot₂' u →
    ∃ v, (fillSlot phase slot₂).Succeeds env s slot₂' v ∧
      (fillSlot phase slot₁).Succeeds env v slot₁' u

namespace Checker.Phase.Exchanges

variable {phase : Checker.Phase} {s₁ s₂ : Source.Stmt}

theorem idle (h₁ : phase s₁ = none) (h₂ : phase s₂ = none) : phase.Exchanges env s₁ s₂ := by
  rintro slot₁ slot₂ slot₁' slot₂' s t u rfl rfl hfirst hsecond
  rcases (fillSlot_idle h₁).mp hfirst with ⟨rfl, rfl, hquiet⟩
  rcases (fillSlot_idle h₂).mp hsecond with ⟨rfl, rfl, _⟩
  exact ⟨_, (fillSlot_idle h₂).mpr ⟨rfl, rfl, hquiet⟩, (fillSlot_idle h₁).mpr ⟨rfl, rfl, hquiet⟩⟩

theorem of_declares {x y : CheckM Item} {own other : List String} (h₁ : phase s₁ = some x)
    (h₂ : phase s₂ = some y) (hreporting : phase.Reporting env) (hx : x.Declares env own other)
    (hy : y.Declares env other own) (hdisjoint : ∀ name ∈ own, name ∉ other) :
    phase.Exchanges env s₁ s₂ := by
  rintro slot₁ slot₂ slot₁' slot₂' s t u rfl rfl hfirst hsecond
  rcases (fillSlot_iff h₁).mp hfirst with ⟨item₁, rfl, hrun₁⟩
  rcases (fillSlot_iff h₂).mp hsecond with ⟨item₂, rfl, hrun₂⟩
  rcases hx.exchange hy hdisjoint hrun₁.value hrun₂.value with ⟨v, hy', hx'⟩
  have hquiet : v.report.reported = false := by
    have hkept := hreporting _ _ h₁ v
    rw [hx'] at hkept
    exact Bool.eq_false_iff.mpr fun h => Bool.false_ne_true (hrun₂.quiet.symm.trans (hkept h))
  exact ⟨v, (fillSlot_iff h₂).mpr ⟨item₂, rfl, hy', hquiet⟩,
    (fillSlot_iff h₁).mpr ⟨item₁, rfl, hx', hrun₂.quiet⟩⟩

theorem runPhase (h : phase.Exchanges env s₁ s₂) (hreporting : phase.Reporting env)
    {l r slots : List Slot} {x y : Slot} (hx : x.stmt = s₁) (hy : y.stmt = s₂)
    (hrun : (Checker.runPhase phase (l ++ x :: y :: r)).Succeeds env s slots t) :
    ∃ l' x' y' r', slots = l' ++ x' :: y' :: r' ∧ l'.length = l.length ∧ x'.stmt = s₁ ∧
      y'.stmt = s₂ ∧
      (Checker.runPhase phase (l ++ y :: x :: r)).Succeeds env s (l' ++ y' :: x' :: r') t := by
  obtain ⟨l', x', y', r', hslots, hlength, ⟨_, _, hx'⟩, ⟨_, _, hy'⟩, hrun'⟩ :=
    Succeeds.collect_exchange (fillSlot_reporting hreporting) hrun
      fun _ hfirst hsecond => h x y _ _ _ _ _ hx hy hfirst hsecond
  exact ⟨l', x', y', r', hslots, hlength, (fillSlot_stmt hx').trans hx,
    (fillSlot_stmt hy').trans hy, hrun'⟩

end Checker.Phase.Exchanges

/-!
# The first pass
-/

section Reporting

variable (env : Env)

theorem Checker.importPhase_reporting : importPhase.Reporting env :=
  fun _ _ hx => (Frame.reporting env).closure.importPhase (.inl trivial) hx

theorem Checker.interfacePhase_reporting : interfacePhase.Reporting env :=
  fun _ _ hx => (Frame.reporting env).closure.interfacePhase (.inl trivial) hx

theorem Checker.classPhase_reporting : classPhase.Reporting env :=
  fun _ _ hx => (Frame.reporting env).closure.classPhase (.inl trivial) hx

theorem Checker.functionPhase_reporting : functionPhase.Reporting env :=
  fun _ _ hx => (Frame.reporting env).closure.functionPhase (.inl trivial) hx

theorem Checker.bindingPhase_reporting : bindingPhase.Reporting env :=
  fun _ _ hx => (Frame.reporting env).closure.bindingPhase (.inl trivial) hx

end Reporting

theorem Checker.runPhase_reporting {phase : Checker.Phase} (h : phase.Reporting env)
    (slots : List Slot) : (runPhase phase slots).Reporting env :=
  Closure.runPhase _ (Closure.attempts _ trivial) fun _ _ _ hx => h _ _ hx

theorem Checker.runPhase_keeps_stmts {phase : Checker.Phase} (h : phase.Reporting env)
    {slots slots' : List Slot} (hrun : (runPhase phase slots).Succeeds env s slots' t) :
    slots'.map Slot.stmt = slots.map Slot.stmt := by
  induction slots generalizing s slots' with
  | nil =>
      rcases Succeeds.pure_iff.mp hrun with ⟨rfl, _⟩
      rfl
  | cons slot slots ih =>
      obtain ⟨slot', rest', s', rfl, hslot, hrest⟩ :=
        (Succeeds.collect_cons_iff (fillSlot_reporting h)).mp hrun
      rw [List.map_cons, List.map_cons, fillSlot_stmt hslot, ih hrest]

def Slot.kept (slot : Slot) : Item :=
  slot.item.getD (.unchecked slot.stmt)

/-- The phases of the first pass. -/
def Checker.phases : List Phase :=
  [importPhase, interfacePhase, classPhase, functionPhase, bindingPhase]

structure Checker.Outlines (env : Env) (ss : List Source.Stmt) (s : State)
    (slots₁ slots₂ slots₃ slots₄ slots₅ : List Slot) (s₁ s₂ s₃ s₄ s₅ : State) : Prop where
  imports : (runPhase importPhase (ss.map fun s => ⟨s, none⟩)).Succeeds env s slots₁ s₁
  interfaces : (runPhase interfacePhase slots₁).Succeeds env
    (onSymbols (·.bindAll env.space (ss.filterMap forward?)) s₁) slots₂ s₂
  classes : (runPhase classPhase slots₂).Succeeds env s₂ slots₃ s₃
  functions : (runPhase functionPhase slots₃).Succeeds env s₃ slots₄ s₄
  values : (runPhase bindingPhase slots₄).Succeeds env s₄ slots₅ s₅

theorem Checker.Outlines.stmts {ss : List Source.Stmt}
    {slots₁ slots₂ slots₃ slots₄ slots₅ : List Slot} {s₁ s₂ s₃ s₄ s₅ : State}
    (h : Outlines env ss s slots₁ slots₂ slots₃ slots₄ slots₅ s₁ s₂ s₃ s₄ s₅) :
    slots₅.map Slot.stmt = ss := by
  rw [runPhase_keeps_stmts (bindingPhase_reporting env) h.values,
    runPhase_keeps_stmts (functionPhase_reporting env) h.functions,
    runPhase_keeps_stmts (classPhase_reporting env) h.classes,
    runPhase_keeps_stmts (interfacePhase_reporting env) h.interfaces,
    runPhase_keeps_stmts (importPhase_reporting env) h.imports, List.map_map]
  exact List.map_id ss

theorem Checker.outline_iff {ss : List Source.Stmt} {items : List Item} :
    (outline ss).Succeeds env s items t ↔
      ∃ slots₁ slots₂ slots₃ slots₄ slots₅ s₁ s₂ s₃ s₄,
        Outlines env ss s slots₁ slots₂ slots₃ slots₄ slots₅ s₁ s₂ s₃ s₄ t ∧
        items = slots₅.map fun slot => slot.item.getD (.unchecked slot.stmt) := by
  -- what has been reported stays so to the end; hence nothing is reported before a quiet end
  have h₅ : ∀ slots₄, CheckM.Reporting env (do
      let slots ← runPhase bindingPhase slots₄
      pure (slots.map fun slot => slot.item.getD (.unchecked slot.stmt)) : CheckM (List Item)) :=
    fun _ => (runPhase_reporting (bindingPhase_reporting env) _).bind fun _ => .pure _
  have h₄ := fun slots₃ => (runPhase_reporting (functionPhase_reporting env) slots₃).bind h₅
  have h₃ := fun slots₂ => (runPhase_reporting (classPhase_reporting env) slots₂).bind h₄
  have h₂ := fun slots₁ => (runPhase_reporting (interfacePhase_reporting env) slots₁).bind h₃
  have h₁ := fun slots₁ => ((Frame.reporting env).closure.declareAll (ss.filterMap forward?)).bind
    fun _ => h₂ slots₁
  unfold outline
  rw [Succeeds.bind_iff h₁]
  constructor
  · rintro ⟨slots₁, s₁, himports, hrest⟩
    rcases (Succeeds.bind_iff fun _ => h₂ slots₁).mp hrest with ⟨_, s₁', hdeclare, hrest⟩
    rcases (Succeeds.bind_iff h₃).mp hrest with ⟨slots₂, s₂, hinterfaces, hrest⟩
    rcases (Succeeds.bind_iff h₄).mp hrest with ⟨slots₃, s₃, hclasses, hrest⟩
    rcases (Succeeds.bind_iff h₅).mp hrest with ⟨slots₄, s₄, hfunctions, hrest⟩
    rcases (Succeeds.bind_iff fun _ => .pure _).mp hrest with ⟨slots₅, s₅, hvalues, hrest⟩
    rcases Succeeds.pure_iff.mp hrest with ⟨rfl, rfl, _⟩
    have hdeclared := hdeclare.value
    rw [declareAll_apply] at hdeclared
    cases hdeclared
    exact ⟨slots₁, slots₂, slots₃, slots₄, slots₅, s₁, s₂, s₃, s₄,
      ⟨himports, hinterfaces, hclasses, hfunctions, hvalues⟩, rfl⟩
  · rintro ⟨slots₁, slots₂, slots₃, slots₄, slots₅, s₁, s₂, s₃, s₄, h, rfl⟩
    refine ⟨slots₁, s₁, h.imports, (Succeeds.bind_iff fun _ => h₂ slots₁).mpr
      ⟨(), _, ⟨declareAll_apply _ _ _, h.imports.quiet⟩, (Succeeds.bind_iff h₃).mpr
        ⟨slots₂, s₂, h.interfaces, (Succeeds.bind_iff h₄).mpr
          ⟨slots₃, s₃, h.classes, (Succeeds.bind_iff h₅).mpr
            ⟨slots₄, s₄, h.functions, (Succeeds.bind_iff fun _ => .pure _).mpr
              ⟨slots₅, t, h.values, ?_⟩⟩⟩⟩⟩⟩
    exact Succeeds.pure_iff.mpr ⟨rfl, rfl, h.values.quiet⟩

/-- Two statements that change places in every phase, and that are not known by the same name
before their signatures are. -/
structure Checker.Exchangeable (env : Env) (s₁ s₂ : Source.Stmt) : Prop where
  imports : importPhase.Exchanges env s₁ s₂
  interfaces : interfacePhase.Exchanges env s₁ s₂
  classes : classPhase.Exchanges env s₁ s₂
  functions : functionPhase.Exchanges env s₁ s₂
  values : bindingPhase.Exchanges env s₁ s₂
  forward : ∀ b₁ ∈ (forward? s₁).toList, ∀ b₂ ∈ (forward? s₂).toList, b₁.1 ≠ b₂.1

theorem SymbolTable.bindAll_append (t : SymbolTable) (space : String) (bs cs : List (String × Ty)) :
    t.bindAll space (bs ++ cs) = (t.bindAll space bs).bindAll space cs :=
  List.foldl_append

namespace Checker.Exchangeable

variable {s₁ s₂ : Source.Stmt} {pre post : List Source.Stmt} (h : Exchangeable env s₁ s₂)
include h

theorem bindAll_forward (t : SymbolTable) (space : String) :
    t.bindAll space ((pre ++ s₁ :: s₂ :: post).filterMap forward?) =
      t.bindAll space ((pre ++ s₂ :: s₁ :: post).filterMap forward?) := by
  have hsplit : ∀ a b : Source.Stmt, (pre ++ a :: b :: post).filterMap forward? =
      pre.filterMap forward? ++ ((forward? a).toList ++ ((forward? b).toList ++
        post.filterMap forward?)) := by
    intro a b
    rw [List.filterMap_append, List.filterMap_cons, List.filterMap_cons]
    cases forward? a <;> cases forward? b <;> rfl
  simp only [hsplit, SymbolTable.bindAll_append]
  rw [SymbolTable.bindAll_comm _ _ h.forward]

theorem outline {items : List Item}
    (hrun : (Checker.outline (pre ++ s₁ :: s₂ :: post)).Succeeds env s items t) :
    ∃ l x y r, items = l ++ x :: y :: r ∧ l.length = pre.length ∧
      (Checker.outline (pre ++ s₂ :: s₁ :: post)).Succeeds env s (l ++ y :: x :: r) t := by
  obtain ⟨slots₁, slots₂, slots₃, slots₄, slots₅, u₁, u₂, u₃, u₄, hruns, rfl⟩ :=
    outline_iff.mp hrun
  rcases hruns with ⟨himports, hinterfaces, hclasses, hfunctions, hvalues⟩
  have hslots : ∀ a b : Source.Stmt, (pre ++ a :: b :: post).map (fun s => (⟨s, none⟩ : Slot)) =
      pre.map (fun s => ⟨s, none⟩) ++ ⟨a, none⟩ :: ⟨b, none⟩ :: post.map fun s => ⟨s, none⟩ :=
    fun _ _ => List.map_append
  rw [hslots] at himports
  obtain ⟨l₁, x₁, y₁, r₁, rfl, hlength₁, hx₁, hy₁, himports⟩ :=
    h.imports.runPhase (importPhase_reporting env) rfl rfl himports
  obtain ⟨l₂, x₂, y₂, r₂, rfl, hlength₂, hx₂, hy₂, hinterfaces⟩ :=
    h.interfaces.runPhase (interfacePhase_reporting env) hx₁ hy₁ hinterfaces
  obtain ⟨l₃, x₃, y₃, r₃, rfl, hlength₃, hx₃, hy₃, hclasses⟩ :=
    h.classes.runPhase (classPhase_reporting env) hx₂ hy₂ hclasses
  obtain ⟨l₄, x₄, y₄, r₄, rfl, hlength₄, hx₄, hy₄, hfunctions⟩ :=
    h.functions.runPhase (functionPhase_reporting env) hx₃ hy₃ hfunctions
  obtain ⟨l₅, x₅, y₅, r₅, rfl, hlength₅, _, _, hvalues⟩ :=
    h.values.runPhase (bindingPhase_reporting env) hx₄ hy₄ hvalues
  -- between imports and interfaces, the names of classes and interfaces are bound in either order
  have hsame : onSymbols (·.bindAll env.space ((pre ++ s₁ :: s₂ :: post).filterMap forward?)) u₁ =
      onSymbols (·.bindAll env.space ((pre ++ s₂ :: s₁ :: post).filterMap forward?)) u₁ := by
    unfold onSymbols
    dsimp only
    rw [h.bindAll_forward]
  rw [← hslots] at himports
  rw [hsame] at hinterfaces
  have hexchanged := outline_iff.mpr ⟨_, _, _, _, _, u₁, u₂, u₃, u₄,
    ⟨himports, hinterfaces, hclasses, hfunctions, hvalues⟩, rfl⟩
  rw [List.map_append, List.map_cons, List.map_cons] at hexchanged
  refine ⟨_, _, _, _, by rw [List.map_append, List.map_cons, List.map_cons], ?_, hexchanged⟩
  rw [List.length_map, hlength₅, hlength₄, hlength₃, hlength₂, hlength₁, List.length_map]

end Checker.Exchangeable

/-!
# The second pass
-/

theorem Checker.finishItem_reporting (env : Env) (item : Item) :
    (attempt (finishItem item)).Reporting env :=
  Closure.Has.attempt (Closure.attempts _ trivial)
    ((Frame.reporting env).closure.finishItem trivial item)

theorem Checker.finish_iff {items : List Item} {ts : List Typed.Stmt} :
    (finish items).Succeeds env s ts t ↔ ∃ os, ts = os.filterMap id ∧
      (collect (items.map fun item => attempt (finishItem item))).Succeeds env s os t := by
  unfold finish
  rw [Succeeds.bind_iff fun _ => .pure _]
  constructor
  · rintro ⟨os, t', hos, hpure⟩
    rcases Succeeds.pure_iff.mp hpure with ⟨rfl, rfl, _⟩
    exact ⟨os, rfl, hos⟩
  · rintro ⟨os, rfl, hos⟩
    exact ⟨os, t, hos, Succeeds.pure_iff.mpr ⟨rfl, rfl, hos.quiet⟩⟩

theorem Checker.finish_iff_collect {items : List Item} {ts : List Typed.Stmt} :
    (finish items).Succeeds env s ts t ↔ (collect (items.map finishItem)).Succeeds env s ts t := by
  have hreporting : ∀ item, (finishItem item).Reporting env :=
    (Frame.reporting env).closure.finishItem trivial
  rw [finish_iff]
  constructor
  · rintro ⟨os, rfl, hos⟩
    rcases (Succeeds.collect_attempt_iff hreporting).mp hos with ⟨bs, rfl, hbs⟩
    rw [List.filterMap_map]
    simpa using hbs
  · intro hts
    refine ⟨ts.map some, ?_, (Succeeds.collect_attempt_iff hreporting).mpr ⟨ts, rfl, hts⟩⟩
    rw [List.filterMap_map]
    simp

theorem Checker.finish_exchange {l r : List Item} {x y : Item} {ts : List Typed.Stmt}
    (hrun : (finish (l ++ x :: y :: r)).Succeeds env s ts t)
    (hexchange : ∀ {ts s₁ s₂ s₃ x' y'}, (finish l).Succeeds env s ts s₁ →
      (finishItem x).Succeeds env s₁ x' s₂ → (finishItem y).Succeeds env s₂ y' s₃ →
      ∃ v, finishItem y env s₁ = (.ok y', v) ∧ finishItem x env v = (.ok x', s₃)) :
    ∃ l' x' y' r', ts = l' ++ x' :: y' :: r' ∧ l'.length = l.length ∧
      (finish (l ++ y :: x :: r)).Succeeds env s (l' ++ y' :: x' :: r') t := by
  have hreporting : ∀ item, (finishItem item).Reporting env :=
    (Frame.reporting env).closure.finishItem trivial
  obtain ⟨l', x', y', r', hts, hlength, _, _, hrun'⟩ :=
    Succeeds.collect_exchange hreporting (finish_iff_collect.mp hrun)
      fun {l' s₁ x' s₂ y' s₃} hl hx hy => by
        rcases hexchange (finish_iff_collect.mpr hl) hx hy with ⟨v, hy', hx'⟩
        have hquiet : v.report.reported = false := by
          have hkept := hreporting x v
          rw [hx'] at hkept
          exact Bool.eq_false_iff.mpr fun h => Bool.false_ne_true (hy.quiet.symm.trans (hkept h))
        exact ⟨v, ⟨hy', hquiet⟩, ⟨hx', hy.quiet⟩⟩
  exact ⟨l', x', y', r', hts, hlength, finish_iff_collect.mpr hrun'⟩

/-!
# Files that are checked with success
-/

theorem Checker.pass_iff {α : Type} {x : CheckM α} {env : Env} {s t : State} {a : α} :
    pass x env s = (.ok a, t) ↔ x.Succeeds env s a t := by
  unfold pass
  constructor
  · intro h
    rcases hx : x env s with ⟨r, u⟩
    cases r with
    | error e =>
        rw [attempt_apply_of_error hx] at h
        cases h
    | ok b =>
        rw [attempt_apply_of_ok hx] at h
        dsimp only at h
        cases hreported : u.report.reported with
        | true =>
            rw [hreported] at h
            cases h
        | false =>
            rw [hreported] at h
            cases h
            exact ⟨hx, hreported⟩
  · intro h
    rw [attempt_apply_of_ok h.value]
    dsimp only
    rw [h.quiet]
    rfl

theorem Checker.runFile_eq_ok {settings : Settings} {load : Loader} {file : Source.File}
    {σ τ : Session} {f : Typed.File} :
    runFile settings load file σ = (.ok f, τ) ↔ ∃ name env items s t,
      envOf settings load σ file = some (name, env) ∧
      (outline file.stmts).Succeeds env (initial settings σ) items s ∧
      (finish items).Succeeds env s f.stmts t ∧ f.path = file.path ∧ f.name = name ∧
      t.session = τ := by
  unfold runFile
  constructor
  · intro h
    split at h
    · cases h
    next name env henv =>
      split at h
      · cases h
      next items s houtline =>
        split at h
        · cases h
        next ts t hfinish =>
          cases h
          exact ⟨name, env, items, s, t, henv, pass_iff.mp houtline, pass_iff.mp hfinish, rfl, rfl,
            rfl⟩
  · rintro ⟨name, env, items, s, t, henv, houtline, hfinish, hpath, rfl, rfl⟩
    rw [henv]
    dsimp only
    rw [pass_iff.mpr houtline]
    dsimp only
    rw [pass_iff.mpr hfinish, ← hpath]

theorem Checker.runFile_exchange_of {settings : Settings} {load : Loader} {σ τ : Session}
    {path : String} {s₁ s₂ : Source.Stmt} {pre post : List Source.Stmt} {f : Typed.File}
    (hmodule : moduleName? (pre ++ s₁ :: s₂ :: post) = moduleName? (pre ++ s₂ :: s₁ :: post))
    (hfirst : ∀ env, Exchangeable env s₁ s₂)
    (hsecond : ∀ {name : String} {env : Env} {l r : List Item} {x y : Item} {s : State},
      env = ⟨settings, path, spaceOf σ name, load⟩ → l.length = pre.length →
      (outline (pre ++ s₁ :: s₂ :: post)).Succeeds env (initial settings σ) (l ++ x :: y :: r) s →
      ∀ {ts t u v x' y'}, (finish l).Succeeds env s ts t → (finishItem x).Succeeds env t x' u →
        (finishItem y).Succeeds env u y' v →
        ∃ w, finishItem y env t = (.ok y', w) ∧ finishItem x env w = (.ok x', v))
    (hrun : runFile settings load ⟨path, pre ++ s₁ :: s₂ :: post⟩ σ = (.ok f, τ)) :
    ∃ l x y r, f.stmts = l ++ x :: y :: r ∧ l.length = pre.length ∧
      runFile settings load ⟨path, pre ++ s₂ :: s₁ :: post⟩ σ =
        (.ok { f with stmts := l ++ y :: x :: r }, τ) := by
  obtain ⟨name, env, items, s, t, henv, houtline, hfinish, hpath, hname, hsession⟩ :=
    runFile_eq_ok.mp hrun
  rcases Option.map_eq_some_iff.mp henv with ⟨_, hnamed, hpair⟩
  cases hpair
  rcases (hfirst _).outline houtline with ⟨l, x, y, r, rfl, hlength, houtline'⟩
  obtain ⟨l', x', y', r', hstmts, hlength', hfinish'⟩ := finish_exchange hfinish fun hl hx hy =>
    hsecond rfl hlength houtline hl hx hy
  have henv' : envOf settings load σ ⟨path, pre ++ s₂ :: s₁ :: post⟩ =
      some (name, ⟨settings, path, spaceOf σ name, load⟩) :=
    Option.map_eq_some_iff.mpr ⟨name, hmodule.symm.trans hnamed, rfl⟩
  exact ⟨l', x', y', r', hstmts, hlength'.trans hlength,
    runFile_eq_ok.mpr ⟨name, _, _, s, t, henv', houtline', hfinish', hpath, hname, hsession⟩⟩

end StaticTyping
