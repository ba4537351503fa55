import StaticTyping.Proofs.Soundness.Tree

/-!
# The outline of a file

The passes over a file go on after a fault, which they report.  If nothing was reported, every
statement has gone through each phase of the first pass, and what that has found is well formed.
-/

namespace StaticTyping

open CheckM

variable {D : Discipline} {env : Surroundings} {α β : Type}

/-!
# The values of checks
-/

def CheckM.Returns (x : CheckM α) (P : α → Prop) : Prop :=
  ∀ (env : Env) (s : State) (a : α), (x env s).1 = .ok a → P a

namespace CheckM.Returns

variable {P : α → Prop}

theorem pure {a : α} (h : P a) : (pure a : CheckM α).Returns P := by
  intro env s b hb
  cases hb
  exact h

theorem trivial {x : CheckM α} : x.Returns fun _ => True :=
  fun _ _ _ _ => True.intro

theorem after {x : CheckM β} {f : β → CheckM α} {Q : β → Prop} (hx : x.Returns Q)
    (hf : ∀ b, Q b → (f b).Returns P) : (x >>= f).Returns P := by
  intro env s a ha
  have hb := hx env s
  rcases hrun : x env s with ⟨r, t⟩
  rw [hrun] at hb
  cases r with
  | ok b =>
      rw [bind_apply_of_ok hrun] at ha
      exact hf b (hb b rfl) env t a ha
  | error e =>
      rw [bind_apply_of_error hrun] at ha
      cases ha

theorem bind {x : CheckM β} {f : β → CheckM α} (h : ∀ b, (f b).Returns P) :
    (x >>= f).Returns P :=
  trivial.after fun b _ => h b

theorem collect {xs : List (CheckM α)} (h : ∀ x ∈ xs, CheckM.Returns x P) :
    (CheckM.collect xs).Returns fun as => ∀ a ∈ as, P a := by
  induction xs with
  | nil => exact .pure fun a ha => absurd ha List.not_mem_nil
  | cons x xs ih =>
      rcases List.forall_mem_cons.mp h with ⟨hx, hxs⟩
      exact hx.after fun a ha => (ih hxs).after fun as has =>
        .pure (List.forall_mem_cons.mpr ⟨ha, has⟩)

theorem around {x : CheckM α} {enter leave : Env → State → State} (h : x.Returns P) :
    (CheckM.around enter leave x).Returns P :=
  fun env s a ha => h env (enter env s) a ha

end CheckM.Returns

/-!
# Checks without a report
-/

def CheckM.Quietly (D : Discipline) (env : Surroundings) (x : CheckM α)
    (Q : Context → α → Context → Prop) : Prop :=
  ∀ s : State, s.WellFormed D → Outcome D s (x env s) fun a t =>
    t.report.reported = false → Q (s.context env) a (t.context env)

namespace CheckM.Quietly

theorem of_ensures {x : CheckM α} {Q : Context → α → Context → Prop}
    (h : ∀ Γ, x.Ensures D env Γ (Q Γ)) : x.Quietly D env Q :=
  fun s hs => (h _ s hs rfl).1.mono fun _ _ ha _ => ha

theorem mono {x : CheckM α} {Q R : Context → α → Context → Prop} (h : x.Quietly D env Q)
    (himp : ∀ Γ a Γ', Q Γ a Γ' → R Γ a Γ') : x.Quietly D env R :=
  fun s hs => (h s hs).mono fun _ _ ha hquiet => himp _ _ _ (ha hquiet)

theorem after {x : CheckM α} {f : α → CheckM β} {P : α → Prop} {Q : Context → α → Context → Prop}
    {R : α → Context → β → Context → Prop} (hx : x.Quietly D env Q) (hreturns : x.Returns P)
    (hf : ∀ a, P a → (f a).Quietly D env (R a)) :
    (x >>= f).Quietly D env fun Γ b Γ'' => ∃ a Γ', Q Γ a Γ' ∧ R a Γ' b Γ'' := by
  intro s hs
  have hboth : Outcome D s (x env s) fun a t =>
      (t.report.reported = false → Q (s.context env) a (t.context env)) ∧ P a :=
    ⟨(hx s hs).released, (hx s hs).wellFormed, (hx s hs).reported,
      fun ha => ⟨(hx s hs).value ha, hreturns env s _ ha⟩⟩
  refine hboth.bind fun a t ht ⟨ha, hP⟩ => ?_
  have hnext := hf a hP t ht
  refine ⟨hnext.released, hnext.wellFormed, hnext.reported, fun hb hquiet => ?_⟩
  have hbefore : t.report.reported = false := by
    cases hreported : t.report.reported with
    | false => rfl
    | true => exact (Bool.false_ne_true (hquiet.symm.trans (hnext.reported hreported))).elim
  exact ⟨a, t.context env, ha hbefore, hnext.value hb hquiet⟩

theorem bind {x : CheckM α} {f : α → CheckM β} {Q : Context → α → Context → Prop}
    {R : α → Context → β → Context → Prop} (hx : x.Quietly D env Q)
    (hf : ∀ a, (f a).Quietly D env (R a)) :
    (x >>= f).Quietly D env fun Γ b Γ'' => ∃ a Γ', Q Γ a Γ' ∧ R a Γ' b Γ'' :=
  hx.after .trivial fun a _ => hf a

theorem attempt {x : CheckM α} {Q : Context → α → Context → Prop}
    (h : ∀ Γ, x.Ensures D env Γ (Q Γ)) :
    (CheckM.attempt x).Quietly D env fun Γ o Γ' => ∃ a, o = some a ∧ Q Γ a Γ' := by
  intro s hs
  have hx := (h _ s hs rfl).1
  unfold CheckM.attempt
  rcases hrun : x env s with ⟨r, t⟩
  rw [hrun] at hx
  cases r with
  | ok a =>
      refine ⟨hx.released, hx.wellFormed, hx.reported, fun ho _ => ?_⟩
      cases ho
      exact ⟨a, rfl, hx.value rfl⟩
  | error e =>
      have hreported := t.report.reported_push (e.diagnose env.file)
      exact ⟨⟨hx.released.session, hx.released.classes, hx.released.exprs, hx.released.stmts⟩,
        ⟨hx.wellFormed.session, hx.wellFormed.classes⟩, fun _ => hreported,
        fun _ hquiet => (Bool.false_ne_true (hquiet.symm.trans hreported)).elim⟩

end CheckM.Quietly

/-- Steps along a list, each from where the one before leads to. -/
inductive Chain {γ : Type} (step : α → γ → β → γ → Prop) : List α → γ → List β → γ → Prop where
  | nil {g} : Chain step [] g [] g
  | cons {a as b bs g g' g''} : step a g b g' → Chain step as g' bs g'' →
      Chain step (a :: as) g (b :: bs) g''

theorem CheckM.Quietly.collect {as : List α} {f : α → CheckM β}
    {step : α → Context → β → Context → Prop} (h : ∀ a ∈ as, (f a).Quietly D env (step a)) :
    (CheckM.collect (as.map f)).Quietly D env fun Γ bs Γ' => Chain step as Γ bs Γ' := by
  induction as with
  | nil => exact .of_ensures fun Γ => .pure .nil
  | cons a as ih =>
      have ha := h a List.mem_cons_self
      have has := ih fun b hb => h b (List.mem_cons_of_mem _ hb)
      refine (ha.bind fun b => has.bind fun bs =>
        .of_ensures (Q := fun Γ bs' Γ' => bs' = b :: bs ∧ Γ' = Γ) fun Γ => .pure ⟨rfl, rfl⟩).mono ?_
      rintro Γ _ Γ' ⟨b, Γ₁, hb, bs, Γ₂, hbs, rfl, rfl⟩
      exact .cons hb hbs

theorem Checker.pass_outcome {x : CheckM α} {Q : Context → α → Context → Prop} {s : State}
    (h : x.Quietly D env Q) (hs : s.WellFormed D) :
    (pass x env s).2.session.WellFormed D ∧ ∀ a, (pass x env s).1 = .ok a →
      (pass x env s).2.WellFormed D ∧ Q (s.context env) a ((pass x env s).2.context env) := by
  have hx := h s hs
  unfold pass CheckM.attempt
  rcases hrun : x env s with ⟨r, t⟩
  rw [hrun] at hx
  cases r with
  | error e => exact ⟨hx.wellFormed.session, fun a ha => by cases ha⟩
  | ok a =>
      dsimp only
      cases hreported : t.report.reported with
      | true => exact ⟨hx.wellFormed.session, fun a ha => by cases ha⟩
      | false =>
          refine ⟨hx.wellFormed.session, fun b hb => ?_⟩
          cases hb
          exact ⟨hx.wellFormed, hx.value rfl hreported⟩

/-!
# The kind of a checked statement
-/

def Source.Stmt.declKind (s : Source.Stmt) : DeclKind :=
  match s.kind with
  | .importOne _ _ | .importMany _ => .imports
  | .interfaceDecl _ => .interfaces
  | .classDecl _ => .classes
  | .function _ _ => .functions
  | .binding _ => .values
  | _ => .other

theorem Checker.stmt_declKind (s : Source.Stmt) :
    (stmt s).Returns fun t => t.declKind = s.declKind := by
  rcases s with ⟨kind, span⟩
  cases kind with
  | defer callee args callSpan => exact .around (.bind fun _ => .pure rfl)
  | expr value => exact .bind fun _ => .pure rfl
  | forLoop init condition increment body =>
      exact .around (.around (.bind fun _ => .bind fun _ => .bind fun _ => .bind fun _ => .pure rfl))
  | forEach name iterable body =>
      exact .around (.around (.bind fun _ => .bind fun _ => .bind fun _ => .bind fun _ => .pure rfl))
  | whileLoop condition body => exact .around (.around (.bind fun _ => .bind fun _ => .pure rfl))
  | function head body => exact .bind fun _ => .bind fun _ => .bind fun _ => .pure rfl
  | binding d =>
      rcases d with ⟨name, isMutable, written, init⟩
      exact .around (.bind fun _ => .bind fun _ => .pure rfl)
  | moduleName name => exact .pure rfl
  | ret value => exact .around (.bind fun _ => .pure rfl)
  | yield value => exact .bind fun _ => .bind fun _ => .bind fun _ => .pure rfl
  | classDecl d =>
      rcases d with ⟨name, visibility, ps, ms, implements⟩
      exact .bind fun _ => .bind fun _ => .bind fun _ => .bind fun _ => .pure rfl
  | interfaceDecl d => exact .bind fun _ => .bind fun _ => .pure rfl
  | importOne package alias? => exact .bind fun _ => .pure rfl
  | importMany imports => exact .bind fun _ => .pure rfl
  | comment text => exact .pure rfl
  | continueLoop => exact .bind fun _ => .bind fun _ => .pure rfl
  | breakLoop => exact .bind fun _ => .bind fun _ => .pure rfl

theorem CheckM.Ensures.and_returns {x : CheckM α} {Γ : Context} {Q : α → Context → Prop}
    {P : α → Prop} (h : x.Ensures D env Γ Q) (hreturns : x.Returns P) :
    x.Ensures D env Γ fun a Γ' => Q a Γ' ∧ P a := by
  intro s hs hΓ
  rcases h s hs hΓ with ⟨hx, hunaffected⟩
  exact ⟨⟨hx.released, hx.wellFormed, hx.reported,
    fun ha => ⟨hx.value ha, hreturns env s _ ha⟩⟩, hunaffected⟩

theorem Checker.interfaceOf_forward (d : Source.InterfaceDecl) :
    (interfaceOf d).Returns fun i => i.name = d.name.name ∧ i.visibility = d.visibility := by
  rcases d with ⟨name, visibility, rs⟩
  exact .bind fun _ => .pure ⟨rfl, rfl⟩

theorem Checker.classOf_forward (d : Source.ClassDecl) :
    (classOf d).Returns fun c => c.visibility = d.visibility := by
  rcases d with ⟨name, visibility, ps, ms, implements⟩
  exact .bind fun _ => .bind fun _ => .bind fun _ => .pure rfl

theorem Checker.stmt_forward? (s : Source.Stmt) (h : s.declKind ≠ .classes) :
    (stmt s).Returns fun t => t.forward? = Checker.forward? s := by
  have hother : ∀ {t : Typed.Stmt}, t.declKind = s.declKind → s.declKind ≠ .interfaces →
      t.forward? = none := by
    intro t ht hs
    rcases t with ⟨kind, span⟩
    cases kind with
    | classDecl name c ms => exact (h ht.symm).elim
    | interfaceDecl i => exact (hs ht.symm).elim
    | _ => rfl
  -- classes aside, only interfaces are known by name before their signatures
  by_cases hs : s.declKind = .interfaces
  · rcases s with ⟨kind, span⟩
    cases kind with
    | interfaceDecl d =>
        refine (interfaceOf_forward d).after fun i hi => .bind fun _ => .pure ?_
        show some (i.name, Ty.interfaceTy (.forward i.name i.visibility)) = _
        rw [hi.1, hi.2]
        rfl
    | _ => cases hs
  · intro env st t ht
    rw [hother (stmt_declKind s env st t ht) hs]
    rcases s with ⟨kind, span⟩
    cases kind with
    | interfaceDecl d => exact (hs rfl).elim
    | classDecl d => exact (h rfl).elim
    | _ => rfl

def Source.Stmt.bound? (s : Source.Stmt) : Option String :=
  match s.kind with
  | .binding d => some d.name.name
  | _ => none

theorem Checker.stmt_bound? (s : Source.Stmt) :
    (stmt s).Returns fun t => t.exportedVariable?.map Variable.name = s.bound? := by
  have hother : s.declKind ≠ .values →
      (stmt s).Returns fun t => t.exportedVariable?.map Variable.name = s.bound? := by
    intro hs env st t ht
    have hkind := stmt_declKind s env st t ht
    rcases t with ⟨kind, span⟩
    rcases s with ⟨kind', span'⟩
    cases kind' with
    | binding d => exact (hs rfl).elim
    | _ =>
        cases kind with
        | binding => cases hkind
        | _ => rfl
  by_cases hs : s.declKind = .values
  · rcases s with ⟨kind, span⟩
    cases kind with
    | binding d =>
        rcases d with ⟨name, isMutable, written, init⟩
        exact .around (.bind fun _ => .bind fun _ => .pure rfl)
    | _ => cases hs
  · exact hother hs

/-- What a checked statement has in common with the written one: its kind, what it is known as
before its signature is, and the variable it declares. -/
structure Typed.Stmt.StandsFor (t : Typed.Stmt) (s : Source.Stmt) : Prop where
  declKind : t.declKind = s.declKind
  forward : t.forward? = Checker.forward? s
  bound : t.exportedVariable?.map Variable.name = s.bound?

theorem Checker.stmt_standsFor (s : Source.Stmt) (h : s.declKind ≠ .classes) :
    (stmt s).Returns fun t => t.StandsFor s :=
  fun env st t ht => ⟨stmt_declKind s env st t ht, stmt_forward? s h env st t ht,
    stmt_bound? s env st t ht⟩

/-!
# Phases
-/

def PhaseStep (phase : Checker.Phase) (step : Source.Stmt → Context → Item → Context → Prop)
    (slot : Slot) (Γ : Context) (slot' : Slot) (Γ' : Context) : Prop :=
  match phase slot.stmt with
  | none => slot' = slot ∧ Γ' = Γ
  | some _ => ∃ item, slot' = ⟨slot.stmt, some item⟩ ∧ step slot.stmt Γ item Γ'

theorem CheckM.Quietly.runPhase {phase : Checker.Phase}
    {step : Source.Stmt → Context → Item → Context → Prop} {slots : List Slot}
    (h : ∀ slot ∈ slots, ∀ x, phase slot.stmt = some x → ∀ Γ,
      x.Ensures D env Γ (step slot.stmt Γ)) :
    (Checker.runPhase phase slots).Quietly D env fun Γ slots' Γ' =>
      Chain (PhaseStep phase step) slots Γ slots' Γ' := by
  refine Quietly.collect fun slot hslot => ?_
  unfold Checker.fillSlot PhaseStep
  cases hphase : phase slot.stmt with
  | none => exact .of_ensures fun Γ => .pure ⟨rfl, rfl⟩
  | some x =>
      refine ((Quietly.attempt (h slot hslot x hphase)).bind (R := fun o Γ slot' Γ' => Γ' = Γ ∧
        ∀ item, o = some item → slot' = ⟨slot.stmt, some item⟩) fun o => ?_).mono ?_
      · cases o with
        | none => exact .of_ensures fun Γ => .pure ⟨rfl, fun item hitem => by cases hitem⟩
        | some item =>
            refine .of_ensures fun Γ => .pure ⟨rfl, fun item' hitem => ?_⟩
            cases hitem
            rfl
      · rintro Γ slot' Γ' ⟨_, _, ⟨item, rfl, hitem⟩, rfl, hslot'⟩
        exact ⟨item, hslot' item rfl, hitem⟩

def CheckedStep (D : Discipline) (s : Source.Stmt) (Γ : Context) (item : Item) (Γ' : Context) :
    Prop :=
  ∃ t, item = .checked t ∧ t.StandsFor s ∧ t.kind.WellTyped D Γ Γ'

def ClassStep (D : Discipline) (s : Source.Stmt) (Γ : Context) (item : Item) (Γ' : Context) :
    Prop :=
  ∃ d span c, s = ⟨.classDecl d, span⟩ ∧ item = .classDecl d span c ∧ c.WellFormed D Γ ∧
    c.methods.length = (Checker.methodBodies d.methods).length ∧ c.visibility = d.visibility ∧
    Γ' = Γ.bind d.name.name (.classTy c)

def FunctionStep (D : Discipline) (s : Source.Stmt) (Γ : Context) (item : Item) (Γ' : Context) :
    Prop :=
  ∃ h body span f, s = ⟨.function h body, span⟩ ∧ item = .function h body span f ∧
    f.sig.WellFormed D Γ ∧ Γ' = Γ.bind h.name.name (.named f)

namespace Premises

variable {c : Source.Condition} (H : Premises D env c)
include H

theorem checkedStep {s : Source.Stmt} (h : Source.Met (s.meets c)) (hs : s.declKind ≠ .classes)
    (Γ : Context) : (Item.checked <$> Checker.stmt s).Ensures D env Γ (CheckedStep D s Γ) := by
  rw [← bind_pure_comp]
  exact Ensures.bind ((H.stmt s h Γ).and_returns (Checker.stmt_standsFor s hs)) fun t Γ' ht =>
    .pure ⟨t, rfl, ht.2, ht.1⟩

theorem importPhase {s : Source.Stmt} (h : Source.Met (s.meets c)) {x : CheckM Item}
    (hx : Checker.importPhase s = some x) (Γ : Context) :
    x.Ensures D env Γ (CheckedStep D s Γ) := by
  unfold Checker.importPhase at hx
  split at hx
  · cases hx
    exact H.checkedStep h (fun hk => by cases hk) Γ
  · cases hx
    exact H.checkedStep h (fun hk => by cases hk) Γ
  · cases hx

theorem interfacePhase {s : Source.Stmt} (h : Source.Met (s.meets c)) {x : CheckM Item}
    (hx : Checker.interfacePhase s = some x) (Γ : Context) :
    x.Ensures D env Γ (CheckedStep D s Γ) := by
  unfold Checker.interfacePhase at hx
  split at hx
  · cases hx
    exact H.checkedStep h (fun hk => by cases hk) Γ
  · cases hx

theorem bindingPhase {s : Source.Stmt} (h : Source.Met (s.meets c)) {x : CheckM Item}
    (hx : Checker.bindingPhase s = some x) (Γ : Context) :
    x.Ensures D env Γ (CheckedStep D s Γ) := by
  unfold Checker.bindingPhase at hx
  split at hx
  · cases hx
    exact H.checkedStep h (fun hk => by cases hk) Γ
  · cases hx

theorem classPhase {s : Source.Stmt} (h : Source.Met (s.meets c)) {x : CheckM Item}
    (hx : Checker.classPhase s = some x) (Γ : Context) :
    x.Ensures D env Γ (ClassStep D s Γ) := by
  unfold Checker.classPhase at hx
  split at hx
  next d span =>
    cases hx
    refine Ensures.bind ((H.classOf d h.right Γ).and_returns (Checker.classOf_forward d))
      fun k Γ' hk => ?_
    rcases hk with ⟨⟨rfl, hwell, hlength⟩, hvisibility⟩
    refine Ensures.bind (Ensures.declare (Q := fun _ Γ'' => Γ'' = Γ'.bind d.name.name (.classTy k))
      d.name.name (.classTy hwell) rfl) fun _ Γ'' hΓ'' => .pure ?_
    exact ⟨d, span, k, rfl, rfl, hwell, hlength, hvisibility, hΓ''⟩
  next => cases hx

theorem functionPhase {s : Source.Stmt} (h : Source.Met (s.meets c)) {x : CheckM Item}
    (hx : Checker.functionPhase s = some x) (Γ : Context) :
    x.Ensures D env Γ (FunctionStep D s Γ) := by
  unfold Checker.functionPhase at hx
  split at hx
  next d body span =>
    cases hx
    refine (H.head d h.left.right span.line Γ).bind fun f hf => ?_
    refine Ensures.bind (Ensures.declare (Q := fun _ Γ' => Γ' = Γ.bind d.name.name (.named f))
      d.name.name (.named hf) rfl) fun _ Γ' hΓ' => .pure ?_
    exact ⟨d, body, span, f, rfl, rfl, hf, hΓ'⟩
  next => cases hx

end Premises

theorem Checker.runPhase_stmts {phase : Phase} {slots : List Slot} {P : Source.Stmt → Prop}
    (h : ∀ slot ∈ slots, P slot.stmt) :
    (runPhase phase slots).Returns fun slots' => ∀ slot ∈ slots', P slot.stmt := by
  refine .collect fun x hx => ?_
  rcases List.mem_map.mp hx with ⟨slot, hslot, rfl⟩
  unfold fillSlot
  split
  · exact .pure (h slot hslot)
  · refine .bind fun item => ?_
    cases item with
    | some item => exact .pure (h slot hslot)
    | none => exact .pure (h slot hslot)

theorem Checker.forward_wellFormed {ss : List Source.Stmt} :
    ∀ b ∈ ss.filterMap Checker.forward?, b.2.WellFormed D := by
  intro b hb
  rcases List.mem_filterMap.mp hb with ⟨s, _, h⟩
  unfold Checker.forward? at h
  split at h
  · cases h
    exact .classTy (Γ := default) (.intro (fun _ h => absurd h List.not_mem_nil) (fun _ => rfl)
      (fun _ h => absurd h List.not_mem_nil) fun _ h => absurd h List.not_mem_nil)
  · cases h
    exact .interfaceTy (Γ := default) (.intro fun _ h => absurd h List.not_mem_nil)
  · cases h

/-- What the first pass has found out about statements, from one context to another. -/
inductive Outlined (D : Discipline) (ss : List Source.Stmt) :
    Context → List Item → Context → Prop where
  | intro {slots₁ slots₂ slots₃ slots₄ slots₅ Γ₀ Γ₁ Γ₂ Γ₃ Γ₄ Γ₅} :
      Chain (PhaseStep Checker.importPhase (CheckedStep D)) (ss.map fun s => ⟨s, none⟩) Γ₀
        slots₁ Γ₁ →
      Chain (PhaseStep Checker.interfacePhase (CheckedStep D)) slots₁
        (Γ₁.bindAll (ss.filterMap Checker.forward?)) slots₂ Γ₂ →
      Chain (PhaseStep Checker.classPhase (ClassStep D)) slots₂ Γ₂ slots₃ Γ₃ →
      Chain (PhaseStep Checker.functionPhase (FunctionStep D)) slots₃ Γ₃ slots₄ Γ₄ →
      Chain (PhaseStep Checker.bindingPhase (CheckedStep D)) slots₄ Γ₄ slots₅ Γ₅ →
      Outlined D ss Γ₀ (slots₅.map fun slot => slot.item.getD (.unchecked slot.stmt)) Γ₅

theorem Premises.outline {c : Source.Condition} (H : Premises D env c) {ss : List Source.Stmt}
    (h : ∀ s ∈ ss, Source.Met (s.meets c)) : (Checker.outline ss).Quietly D env (Outlined D ss) := by
  have hstart : ∀ slot ∈ ss.map (fun s => (⟨s, none⟩ : Slot)), Source.Met (slot.stmt.meets c) := by
    intro slot hslot
    rcases List.mem_map.mp hslot with ⟨s, hs, rfl⟩
    exact h s hs
  have hdeclare : (CheckM.declareAll (ss.filterMap Checker.forward?)).Quietly D env fun Γ _ Γ' =>
      Γ' = Γ.bindAll (ss.filterMap Checker.forward?) :=
    .of_ensures fun Γ => .declareAll Checker.forward_wellFormed rfl
  refine (Quietly.after (.runPhase fun slot hslot _ hx => H.importPhase (hstart slot hslot) hx)
    (Checker.runPhase_stmts (P := fun s => Source.Met (s.meets c)) hstart) fun slots₁ h₁ =>
    hdeclare.bind fun _ =>
    Quietly.after (.runPhase fun slot hslot _ hx => H.interfacePhase (h₁ slot hslot) hx)
    (Checker.runPhase_stmts (P := fun s => Source.Met (s.meets c)) h₁) fun slots₂ h₂ =>
    Quietly.after (.runPhase fun slot hslot _ hx => H.classPhase (h₂ slot hslot) hx)
    (Checker.runPhase_stmts (P := fun s => Source.Met (s.meets c)) h₂) fun slots₃ h₃ =>
    Quietly.after (.runPhase fun slot hslot _ hx => H.functionPhase (h₃ slot hslot) hx)
    (Checker.runPhase_stmts (P := fun s => Source.Met (s.meets c)) h₃) fun slots₄ h₄ =>
    Quietly.bind (.runPhase fun slot hslot _ hx => H.bindingPhase (h₄ slot hslot) hx)
    fun slots₅ => .of_ensures (Q := fun Γ items Γ' =>
      items = slots₅.map (fun slot => slot.item.getD (.unchecked slot.stmt)) ∧ Γ' = Γ)
      fun Γ => .pure ⟨rfl, rfl⟩).mono ?_
  rintro Γ items Γ' ⟨slots₁, Γ₁, h₁, _, _, rfl, slots₂, Γ₂, h₂, slots₃, Γ₃, h₃, slots₄, Γ₄, h₄,
    slots₅, Γ₅, h₅, rfl, rfl⟩
  exact .intro h₁ h₂ h₃ h₄ h₅

end StaticTyping
