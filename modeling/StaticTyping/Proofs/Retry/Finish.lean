import StaticTyping.Proofs.Order.Bound
import StaticTyping.Proofs.Retry.Outline

/-!
# What the passes leave behind

After the imports, the passes over a file of declarations leave names and standard packages behind
and nothing else.  Neither pass notices standard packages that were visible before, unless the file
names them without importing them.
-/

namespace StaticTyping

open CheckM

variable {α β : Type} {D : Discipline}

/-!
# Checks that do not notice standard packages
-/

def CheckM.Steady (D : Discipline) (env : Surroundings) (x : CheckM α) : Prop :=
  ∀ s : State, s.WellFormed D → (x env s).2.WellFormed D ∧ x.Unaffected env s

namespace CheckM.Steady

variable {env : Surroundings}

theorem of_ensures {x : CheckM α} {Q : Context → α → Context → Prop}
    (h : ∀ Γ, x.Ensures D env Γ (Q Γ)) : x.Steady D env :=
  fun s hs => ⟨(h _ s hs rfl).1.wellFormed, (h _ s hs rfl).2⟩

theorem pure (a : α) : (pure a : CheckM α).Steady D env :=
  fun _ hs => ⟨hs, rfl⟩

theorem after {x : CheckM α} {f : α → CheckM β} {P : α → Prop} (hx : x.Steady D env)
    (hreturns : x.Returns P) (hf : ∀ a, P a → (f a).Steady D env) : (x >>= f).Steady D env := by
  intro s hs
  rcases hx s hs with ⟨hwell, hunaffected⟩
  have hnext : ∀ a t, x env s = (.ok a, t) →
      (f a env t).2.WellFormed D ∧ (f a).Unaffected env t := by
    intro a t hrun
    rw [hrun] at hwell
    exact hf a (hreturns env s a (congrArg Prod.fst hrun)) t hwell
  refine ⟨?_, hunaffected.bind fun a t hrun => (hnext a t hrun).2⟩
  rcases hrun : x env s with ⟨r, t⟩
  cases r with
  | error e =>
      rw [bind_apply_of_error hrun]
      rw [hrun] at hwell
      exact hwell
  | ok a =>
      rw [bind_apply_of_ok hrun]
      exact (hnext a t hrun).1

theorem bind {x : CheckM α} {f : α → CheckM β} (hx : x.Steady D env)
    (hf : ∀ a, (f a).Steady D env) : (x >>= f).Steady D env :=
  hx.after .trivial fun a _ => hf a

theorem attempt {x : CheckM α} (h : x.Steady D env) : (CheckM.attempt x).Steady D env := by
  intro s hs
  rcases h s hs with ⟨hwell, hunaffected⟩
  rcases hrun : x env s with ⟨r, t⟩
  unfold Unaffected at hunaffected ⊢
  rw [hrun] at hwell hunaffected
  cases r with
  | ok a =>
      rw [attempt_apply_of_ok hrun, attempt_apply_of_ok hunaffected]
      exact ⟨hwell, rfl⟩
  | error e =>
      rw [attempt_apply_of_error hrun, attempt_apply_of_error hunaffected]
      exact ⟨⟨hwell.session, hwell.classes⟩, rfl⟩

theorem collect {xs : List (CheckM α)} (h : ∀ x ∈ xs, x.Steady D env) :
    (CheckM.collect xs).Steady D env := by
  induction xs with
  | nil => exact .pure []
  | cons x xs ih =>
      rcases List.forall_mem_cons.mp h with ⟨hx, hxs⟩
      exact hx.bind fun a => (ih hxs).bind fun as => .pure (a :: as)

end CheckM.Steady

theorem Checker.runPhase_steady {env : Surroundings} {phase : Phase} {slots : List Slot}
    (h : ∀ slot ∈ slots, ∀ x, phase slot.stmt = some x → x.Steady D env) :
    (runPhase phase slots).Steady D env := by
  refine .collect fun y hy => ?_
  rcases List.mem_map.mp hy with ⟨slot, hslot, rfl⟩
  unfold fillSlot
  cases hphase : phase slot.stmt with
  | none => exact .pure slot
  | some x =>
      refine (h slot hslot x hphase).attempt.bind fun o => ?_
      cases o with
      | none => exact .pure slot
      | some item => exact .pure _

theorem Checker.phases_of_imports {s : Source.Stmt} (h : s.declKind = .imports) :
    interfacePhase s = none ∧ classPhase s = none ∧ functionPhase s = none ∧
      bindingPhase s = none := by
  rcases s with ⟨kind, span⟩
  cases kind with
  | importOne | importMany => exact ⟨rfl, rfl, rfl, rfl⟩
  | _ => cases h

namespace Premises

variable {env : Surroundings} {c : Source.Condition} (H : Premises D env c)
  {ss : List Source.Stmt}
  (h : ∀ s ∈ ss, s.declKind = .imports ∨ Source.Met (s.meets c))
include H h

theorem declareSlots {slots : List Slot} (hslots : slots.map Slot.stmt = ss) :
    (Checker.declareSlots ss slots).Steady D env := by
  have hdeclared : (declareAll (ss.filterMap Checker.forward?)).Steady D env :=
    .of_ensures fun Γ => .declareAll (Q := fun _ _ => True) Checker.forward_wellFormed trivial
  have hstart : ∀ slot ∈ slots, slot.stmt ∈ ss := fun slot hslot =>
    hslots ▸ List.mem_map_of_mem hslot
  -- imports have had their phase, and no other one has anything to do with them
  have hmeets : ∀ {s : Source.Stmt}, s ∈ ss → ∀ {phase : Checker.Phase} {x},
      (s.declKind = .imports → phase s = none) → phase s = some x → Source.Met (s.meets c) := by
    intro s hs phase x hidle hx
    refine (h s hs).resolve_left fun hkind => ?_
    rw [hidle hkind] at hx
    cases hx
  refine hdeclared.bind fun _ => ?_
  refine (Checker.runPhase_steady fun slot hslot x hx => .of_ensures (H.interfacePhase
    (hmeets (hstart slot hslot) (fun h => (Checker.phases_of_imports h).1) hx) hx)).after
    (Checker.runPhase_stmts hstart) fun slots₂ h₂ => ?_
  refine (Checker.runPhase_steady fun slot hslot x hx => .of_ensures (H.classPhase
    (hmeets (h₂ slot hslot) (fun h => (Checker.phases_of_imports h).2.1) hx) hx)).after
    (Checker.runPhase_stmts h₂) fun slots₃ h₃ => ?_
  refine (Checker.runPhase_steady fun slot hslot x hx => .of_ensures (H.functionPhase
    (hmeets (h₃ slot hslot) (fun h => (Checker.phases_of_imports h).2.2.1) hx) hx)).after
    (Checker.runPhase_stmts h₃) fun slots₄ h₄ => ?_
  exact (Checker.runPhase_steady fun slot hslot x hx => .of_ensures (H.bindingPhase
    (hmeets (h₄ slot hslot) (fun h => (Checker.phases_of_imports h).2.2.2) hx) hx)).bind
      fun _ => .pure _

theorem finish_steady {items : List Item} {g g' : Stage}
    (hrows : Chain (Row D) ss g items g') : (Checker.finish items).Steady D env := by
  refine Steady.bind (.collect fun x hx => ?_) fun os => .pure _
  rcases List.mem_map.mp hx with ⟨item, hitem, rfl⟩
  rcases hrows.exists_of_mem hitem with ⟨s, hs, g, g', hrow⟩
  rcases h s hs with himport | hmeets
  · have hitem := hrow.1
    rw [himport] at hitem
    rcases hitem with ⟨t, rfl, _⟩
    exact .attempt (.pure t)
  · exact .attempt (.of_ensures (H.finishItem hmeets hrow))

end Premises

/-!
# Checks that leave scopes as they were
-/

/-- A check that makes standard packages visible at most, releases what it enters, and leaves the
scopes of the module as they were, whichever way it ends. -/
structure CheckM.Restores (env : Env) (x : CheckM α) : Prop where
  demands : ∀ s : State, s.Demands env (x env s).2
  released : ∀ s : State, s.Released (x env s).2
  context : ∀ s : State, (x env s).2.context env = s.context env

namespace CheckM.Restores

variable {env : Env}

theorem of_idle {x : CheckM α} (h : ∀ s, (x env s).2 = s) : x.Restores env := by
  refine ⟨fun s => ?_, fun s => ?_, fun s => ?_⟩ <;> rw [h s]
  · exact ⟨⟨[], fun _ hp => absurd hp List.not_mem_nil, rfl⟩, fun _ => rfl, rfl, rfl, rfl⟩
  · exact .refl s

theorem bind {x : CheckM α} {f : α → CheckM β} (hx : x.Restores env)
    (hf : ∀ a, (f a).Restores env) : (x >>= f).Restores env := by
  have hcases : ∀ s : State, ((x >>= f) env s).2 = (x env s).2 ∨
      ∃ a, ((x >>= f) env s).2 = (f a env (x env s).2).2 := by
    intro s
    rcases hrun : x env s with ⟨r, t⟩
    cases r with
    | error e => exact .inl (by rw [bind_apply_of_error hrun])
    | ok a => exact .inr ⟨a, by rw [bind_apply_of_ok hrun]⟩
  refine ⟨fun s => ?_, fun s => ?_, fun s => ?_⟩ <;>
    rcases hcases s with h | ⟨a, h⟩ <;> rw [h]
  · exact hx.demands s
  · exact (hx.demands s).trans ((hf a).demands _)
  · exact hx.released s
  · exact (hx.released s).trans ((hf a).released _)
  · exact hx.context s
  · exact ((hf a).context _).trans (hx.context s)

theorem inStmt {x : CheckM α} (h : x.Restores env) (c : StmtContext) :
    (CheckM.inStmt c x).Restores env where
  demands s :=
    have hx := h.demands { s with stmts := s.stmts.push c }
    ⟨hx.imports, hx.spaces, hx.compiled, hx.requested, hx.report⟩
  released s :=
    have hx := h.released { s with stmts := s.stmts.push c }
    ⟨hx.session, hx.classes, hx.exprs, congrArg ContextStack.pop hx.stmts⟩
  context s := h.context { s with stmts := s.stmts.push c }

theorem inScope {hidden : List String} {x : CheckM α} (hload : env.load.Releases)
    (hdemands : (Frame.onDemand env D hidden).Keeps x)
    (hreleased : (Frame.release env hload).Keeps x) : (CheckM.inScope x).Restores env := by
  refine ⟨hdemands.inScope, hreleased.inScope, fun s => ?_⟩
  have h : (onSymbols (·.enter env.space) s).Released (x env (onSymbols (·.enter env.space) s)).2 :=
    hreleased _
  have hscopes : ((x env (onSymbols (·.enter env.space) s)).2.session.symbols.leave
      env.space).scopesOf env.space = s.session.symbols.scopesOf env.space := by
    rw [h.session.symbols.leave_eq, SymbolTable.scopesOf_setScopes_self]
  have hclasses := congrArg ContextStack.top? h.classes
  have hshares := congrFun (Session.shares_congr h.session.underWay) env.space
  show Context.mk _ _ _ = Context.mk _ _ _
  congr 1

theorem functionOf {hidden : List String} (hload : env.load.Releases) (name : Ident)
    {body : Source.Block} (hbody : Source.Met (body.meets (D.closed hidden))) (line : UInt32)
    (sig : NamedFunction) :
    (CheckM.functionOf name (Checker.blockOf body) line sig).Restores env := by
  have hinside : ∀ {c} (F : Frame env c), F.Keeps (Checker.blockOf body) → F.Keeps (do
      declareAll (sig.sig.params.map fun p => (p.name, p.bodyTy))
      let body ← Checker.blockOf body
      require (sig.sig.ret.accepts body.ty) (.typeMismatch sig.sig.ret body.ty) line
      pure body) := fun F hkeeps =>
    (F.closure.declareAll _).bind fun _ => hkeeps.bind fun _ =>
      (Closure.Has.require _ _ _).bind fun _ => .pure _
  have hdemands := hinside (Frame.onDemand env D hidden) (Closure.blockOf _ body (.inr hbody))
  have hreleased := hinside (Frame.release env hload) (Closure.blockOf _ body (.inl trivial))
  exact ((inScope hload hdemands hreleased).inStmt .function).bind fun _ => .of_idle fun _ => rfl

theorem requireInterfaces (sig : ClassTy) (line : UInt32) (is : List InterfaceTy) :
    (CheckM.requireInterfaces sig line is).Restores env := by
  induction is with
  | nil => exact .of_idle fun _ => rfl
  | cons i is ih =>
      unfold CheckM.requireInterfaces
      cases sig.unprovided? i with
      | some f => exact .of_idle fun _ => rfl
      | none => exact ih

theorem methods {hidden : List String} (hload : env.load.Releases) {ms : List Source.Method}
    (hms : Source.Met (Source.Method.allMeet (D.closed hidden) ms)) (sig : ClassTy) :
    (CheckM.inStmt .classDecl <| CheckM.inScope <| CheckM.inClass sig <| collect
      (List.zipWith (fun check f => check f) (Checker.methodBodies ms) sig.methods)).Restores env := by
  have hdemands := (Frame.onDemand env D hidden).closure.methods
    (Closure.methodBodies _ ms (.inr hms)) sig.methods
  have hreleased := (Frame.release env hload).closure.methods
    (Closure.methodBodies _ ms (.inl trivial)) sig.methods
  exact (inScope hload (hdemands.inClass sig) (hreleased.inClass sig)).inStmt .classDecl

end CheckM.Restores

/-!
# The second pass
-/

/-- A check that binds names and makes standard packages visible and leaves the rest of the session
as it was, whichever way it ends. -/
def CheckM.Trails (env : Env) (names : List String) (x : CheckM α) : Prop :=
  ∀ s : State, ∃ bs ps, (∀ b ∈ bs, b.1 ∈ names) ∧ (∀ p ∈ ps, p ∈ Library.onDemand) ∧
    (x env s).2.session = { s.session with
      symbols := (s.session.symbols.bindAll env.space bs).addStandards env.file ps }

namespace CheckM.Trails

variable {env : Env} {names : List String}

theorem of_idle {x : CheckM α} (h : ∀ s, (x env s).2 = s) : x.Trails env names :=
  fun s => ⟨[], [], fun _ hb => absurd hb List.not_mem_nil, fun _ hp => absurd hp List.not_mem_nil,
    congrArg State.session (h s)⟩

theorem bind {x : CheckM α} {f : α → CheckM β} (hx : x.Trails env names)
    (hf : ∀ a, (f a).Trails env names) : (x >>= f).Trails env names := by
  intro s
  rcases hx s with ⟨bs, ps, hbs, hps, hsession⟩
  rcases hrun : x env s with ⟨r, t⟩
  rw [hrun] at hsession
  cases r with
  | error e => exact ⟨bs, ps, hbs, hps, by rw [bind_apply_of_error hrun]; exact hsession⟩
  | ok a =>
      rcases hf a t with ⟨bs', ps', hbs', hps', hsession'⟩
      refine ⟨bs ++ bs', ps ++ ps', List.forall_mem_append.mpr ⟨hbs, hbs'⟩,
        List.forall_mem_append.mpr ⟨hps, hps'⟩, ?_⟩
      rw [bind_apply_of_ok hrun, hsession', hsession]
      dsimp only
      rw [SymbolTable.bindAll_addStandards, SymbolTable.bindAll_append,
        SymbolTable.addStandards_append]

theorem attempt {x : CheckM α} (h : x.Trails env names) : (CheckM.attempt x).Trails env names := by
  intro s
  rcases h s with ⟨bs, ps, hbs, hps, hsession⟩
  exact ⟨bs, ps, hbs, hps, (attempt_session x env s).trans hsession⟩

theorem collect {xs : List (CheckM α)} (h : ∀ x ∈ xs, x.Trails env names) :
    (CheckM.collect xs).Trails env names := by
  induction xs with
  | nil => exact .of_idle fun _ => rfl
  | cons x xs ih =>
      rcases List.forall_mem_cons.mp h with ⟨hx, hxs⟩
      exact hx.bind fun a => (ih hxs).bind fun as => .of_idle fun _ => rfl

theorem declare {name : String} (hname : name ∈ names) (ty : Ty) {y : CheckM α}
    (hy : y.Restores env) : (CheckM.declare name ty >>= fun _ => y).Trails env names := by
  intro s
  have hcontext : (onSymbols (·.bind env.space name ty) s).context env =
      (s.context env).bind name ty := by
    show Context.mk ((SymbolTable.setScopes _ _ _).scopesOf _) _ _ = _
    rw [SymbolTable.scopesOf_setScopes_self]
    rfl
  have hbinds : ((onSymbols (·.bind env.space name ty) s).context env).Binds name ty :=
    hcontext ▸ Context.binds_bind _ name ty
  rcases (hy.demands _).eq_addStandards (hy.released _) (hy.context _) hbinds with ⟨ps, hps, heq⟩
  exact ⟨[(name, ty)], ps, List.forall_mem_singleton.mpr hname, hps, congrArg State.session heq⟩

end CheckM.Trails

section

variable {env : Env} (hload : env.load.Releases) {hidden names : List String}
include hload

theorem Checker.finishItem_trails {late : List String} {s : Source.Stmt} (htidy : s.tidy late)
    (hclosed : s.declKind = .imports ∨ Source.Met (s.meets (D.closed hidden))) {g g' : Stage}
    {item : Item} (hrow : Row D s g item g') (hnames : ∀ name ∈ item.rebound?, name ∈ names) :
    (finishItem item).Trails env names := by
  have hitem := hrow.1
  have hmeets : s.declKind ≠ .imports → Source.Met (s.meets (D.closed hidden)) :=
    hclosed.resolve_left
  cases hkind : s.declKind with
  | imports | interfaces | values =>
      rw [hkind] at hitem
      rcases hitem with ⟨t, rfl, _⟩
      exact .of_idle fun _ => rfl
  | classes =>
      rw [hkind] at hitem
      rcases hitem with ⟨d, span, c, rfl, rfl, _⟩
      rcases d with ⟨name, visibility, ps, ms, implements⟩
      have hstmt := hmeets fun h => by cases h
      have hms : Source.Met (Source.Method.allMeet (D.closed hidden) ms) := hstmt.right
      exact .declare (hnames _ rfl) _ ((Restores.methods hload hms c).bind fun _ =>
        (Restores.requireInterfaces c _ _).bind fun _ => .of_idle fun _ => rfl)
  | functions =>
      rw [hkind] at hitem
      rcases hitem with ⟨d, body, span, f, rfl, rfl, _⟩
      have hstmt := hmeets fun h => by cases h
      have hbody : Source.Met (body.meets (D.closed hidden)) := hstmt.right
      exact .declare (hnames _ rfl) _ ((Restores.functionOf hload d.name hbody _ _).bind fun _ =>
        .of_idle fun _ => rfl)
  | other =>
      rw [hkind] at hitem
      rcases hitem with ⟨rfl, _⟩
      -- of the statements that declare nothing, only those are tidy that have nothing to check
      rcases s with ⟨kind, span⟩
      cases kind with
      | moduleName | comment => exact .of_idle fun _ => rfl
      | function | binding | classDecl | interfaceDecl | importOne | importMany => cases hkind
      | _ => cases htidy

theorem Checker.finish_trails {late : List String} {ss : List Source.Stmt}
    (htidy : ∀ s ∈ ss, s.tidy late)
    (hclosed : ∀ s ∈ ss, s.declKind = .imports ∨ Source.Met (s.meets (D.closed hidden)))
    {items : List Item} {g g' : Stage} (hrows : Chain (Row D) ss g items g')
    (hnames : ∀ item ∈ items, ∀ name ∈ item.rebound?, name ∈ names) :
    (finish items).Trails env names := by
  refine Trails.bind (.collect fun x hx => ?_) fun os => .of_idle fun _ => rfl
  rcases List.mem_map.mp hx with ⟨item, hitem, rfl⟩
  rcases hrows.exists_of_mem hitem with ⟨s, hs, _, _, hrow⟩
  exact (finishItem_trails hload (htidy s hs) (hclosed s hs) hrow (hnames item hitem)).attempt

end

end StaticTyping
