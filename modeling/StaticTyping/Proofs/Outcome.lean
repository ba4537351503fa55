import Mathlib.Data.List.Forall2
import StaticTyping.Proofs.Namespaces
import StaticTyping.Proofs.Tables

/-!
# Outcomes of checks

What a check comes to is said in terms of contexts.  From every well-formed state in a context, a
check has released what it entered and left a well-formed state, whichever way it ends; what it
has reported stays reported; and if it gives a value, that and the context left satisfy a
condition.

A check does not notice imports that it does not look at: with others in their place it comes to
the same.
-/

namespace StaticTyping

open CheckM

/-!
# Imports that are not noticed
-/

def SymbolTable.shiftImports (t : SymbolTable)
    (shift : Dict (Dict Scope) → Dict (Dict Scope)) : SymbolTable :=
  { t with imports := shift t.imports }

/--
The surroundings of a file with a change of imports.  The imports whose names are seen stay as
they are, and standard packages that become visible are so before the change as well as after it.
Where files are imported there is no change.
-/
structure Surroundings extends Env where
  shift : Dict (Dict Scope) → Dict (Dict Scope)
  sees : String → Prop
  imports : Prop
  seen : ∀ {name : String}, sees name → ∀ t : SymbolTable,
    (t.shiftImports shift).imported? file name = t.imported? file name
  standard : ∀ {ty : Ty} {package localName : String},
    ty.builtinPackage? = some (package, localName) → ∀ t : SymbolTable,
    (t.shiftImports shift).addStandard file package localName =
      (t.addStandard file package localName).shiftImports shift
  standardSeen : ∀ {ty : Ty} {package localName : String},
    ty.builtinPackage? = some (package, localName) → ∀ t : SymbolTable,
    ((t.addStandard file package localName).shiftImports shift).imported? file localName =
      (t.addStandard file package localName).imported? file localName
  unmoved : imports → shift = id

instance : Coe Surroundings Env := ⟨Surroundings.toEnv⟩

def Env.unshifted (env : Env) : Surroundings where
  toEnv := env
  shift := id
  sees _ := True
  imports := True
  seen _ _ := rfl
  standard _ _ := rfl
  standardSeen _ _ := rfl
  unmoved _ := rfl

theorem Env.toEnv_unshifted (env : Env) : env.unshifted.toEnv = env :=
  rfl

def Surroundings.SeesAll (env : Surroundings) (names : List String) : Prop :=
  ∀ name ∈ names, ∀ localName member, splitDot? name = some (localName, member) →
    env.sees localName

def Surroundings.shifted (env : Surroundings) (s : State) : State :=
  onSymbols (·.shiftImports env.shift) s

theorem Surroundings.shifted_eq_self {env : Surroundings} (h : env.imports) (s : State) :
    env.shifted s = s := by
  unfold shifted onSymbols SymbolTable.shiftImports
  rw [env.unmoved h]
  rfl

namespace CheckM

variable {env : Surroundings} {α β : Type} {s : State}

def Unaffected (env : Surroundings) (x : CheckM α) (s : State) : Prop :=
  x env (env.shifted s) = ((x env s).1, env.shifted (x env s).2)

namespace Unaffected

theorem view {f : Env → State → α} (h : f env (env.shifted s) = f env s) :
    (CheckM.view f).Unaffected env s := by
  show (Except.ok (f env (env.shifted s)), env.shifted s) = _
  rw [h]
  rfl

theorem of_imports (h : env.imports) {x : CheckM α} (s : State) : x.Unaffected env s := by
  unfold Unaffected
  rw [env.shifted_eq_self h, env.shifted_eq_self h]

theorem bind {x : CheckM α} {f : α → CheckM β} (hx : x.Unaffected env s)
    (hf : ∀ a t, x env s = (.ok a, t) → (f a).Unaffected env t) : (x >>= f).Unaffected env s := by
  rcases hrun : x env s with ⟨r, t⟩
  unfold Unaffected at hx ⊢
  rw [hrun] at hx
  cases r with
  | ok a =>
      rw [bind_apply_of_ok hrun, bind_apply_of_ok hx]
      exact hf a t hrun
  | error e => rw [bind_apply_of_error hrun, bind_apply_of_error hx]

theorem mapCause {x : CheckM α} (hx : x.Unaffected env s) (f : Cause → Cause) :
    (CheckM.mapCause f x).Unaffected env s := by
  unfold Unaffected at hx ⊢
  unfold CheckM.mapCause
  rw [hx]
  rcases x env s with ⟨r, t⟩
  cases r <;> rfl

theorem around {enter leave : Env → State → State} {x : CheckM α}
    (henter : enter env (env.shifted s) = env.shifted (enter env s))
    (hleave : ∀ t, leave env (env.shifted t) = env.shifted (leave env t))
    (hx : x.Unaffected env (enter env s)) : (CheckM.around enter leave x).Unaffected env s := by
  unfold Unaffected at hx ⊢
  unfold CheckM.around
  rw [henter, hx]
  exact congrArg (Prod.mk _) (hleave _)

end Unaffected
end CheckM

/-!
# Outcomes
-/

def State.context (env : Env) (s : State) : Context :=
  ⟨s.session.symbols.scopesOf env.space, s.classes.top?, s.session.Shares env.space⟩

theorem Env.currentClass_eq (env : Env) (s : State) (c : ClassTy) :
    env.currentClass s.session.symbols c = (s.context env).scopes.currentClass c := by
  unfold Env.currentClass Scopes.currentClass
  rw [SymbolTable.lookup?_eq_scopesOf]
  rfl

theorem Env.currentInterface_eq (env : Env) (s : State) (i : InterfaceTy) :
    env.currentInterface s.session.symbols i = (s.context env).scopes.currentInterface i := by
  unfold Env.currentInterface Scopes.currentInterface
  rw [SymbolTable.lookup?_eq_scopesOf]
  rfl

theorem Env.accepts_eq (env : Env) (s : State) (expected found : Ty) :
    env.accepts s.session.symbols expected found =
      (s.context env).scopes.accepts expected found := by
  cases expected with
  | interfaceTy i =>
      cases found with
      | classTy c =>
          show (env.currentClass s.session.symbols c).satisfies
            (env.currentInterface s.session.symbols i) =
            ((s.context env).scopes.currentClass c).satisfies
              ((s.context env).scopes.currentInterface i)
          rw [Env.currentClass_eq, Env.currentInterface_eq]
      | _ => rfl
  | _ => rfl

/-- A state and what a check has come to from it. -/
structure CheckM.Outcome (D : Discipline) {α : Type} (s : State) (r : Except Fault α × State)
    (Q : α → State → Prop) : Prop where
  released : s.Released r.2
  wellFormed : r.2.WellFormed D
  reported : s.report.reported → r.2.report.reported
  value : ∀ {a}, r.1 = .ok a → Q a r.2

def CheckM.Ensures (D : Discipline) (env : Surroundings) {α : Type} (Γ : Context) (x : CheckM α)
    (Q : α → Context → Prop) : Prop :=
  ∀ s : State, s.WellFormed D → s.context env = Γ →
    (Outcome D s (x env s) fun a t => Q a (t.context env)) ∧ x.Unaffected env s

def CheckM.Yields (D : Discipline) (env : Surroundings) {α : Type} (Γ : Context) (x : CheckM α)
    (P : α → Prop) : Prop :=
  x.Ensures D env Γ fun a Γ' => Γ' = Γ ∧ P a

namespace CheckM

variable {D : Discipline} {env : Surroundings} {α β : Type} {s : State} {Γ : Context}

/-!
# From one state
-/

namespace Outcome

theorem ok {Q : α → State → Prop} {a : α} (hs : s.WellFormed D) (ha : Q a s) :
    Outcome D s (.ok a, s) Q := by
  refine ⟨.refl s, hs, id, fun h => ?_⟩
  cases h
  exact ha

theorem error {Q : α → State → Prop} {e : Fault} (hs : s.WellFormed D) :
    Outcome D s (.error e, s) Q :=
  ⟨.refl s, hs, id, fun h => by cases h⟩

theorem mono {r : Except Fault α × State} {Q R : α → State → Prop} (h : Outcome D s r Q)
    (himp : ∀ a t, Q a t → R a t) : Outcome D s r R :=
  ⟨h.released, h.wellFormed, h.reported, fun ha => himp _ _ (h.value ha)⟩

theorem bind {x : CheckM α} {f : α → CheckM β} {Q : α → State → Prop} {R : β → State → Prop}
    (hx : Outcome D s (x env s) Q)
    (hf : ∀ a t, t.WellFormed D → Q a t → Outcome D t (f a env t) R) :
    Outcome D s ((x >>= f) env s) R := by
  rcases hrun : x env s with ⟨r, t⟩
  rw [hrun] at hx
  cases r with
  | ok a =>
      have hnext := hf a t hx.wellFormed (hx.value rfl)
      rw [bind_apply_of_ok hrun]
      exact ⟨hx.released.trans hnext.released, hnext.wellFormed,
        fun h => hnext.reported (hx.reported h), hnext.value⟩
  | error e =>
      rw [bind_apply_of_error hrun]
      exact ⟨hx.released, hx.wellFormed, hx.reported, fun h => by cases h⟩

end Outcome

/-!
# From all states in a context
-/

namespace Ensures

variable {Q : α → Context → Prop} {R : β → Context → Prop}

theorem mono {x : CheckM α} {Q' : α → Context → Prop} (h : x.Ensures D env Γ Q)
    (himp : ∀ a Γ', Q a Γ' → Q' a Γ') : x.Ensures D env Γ Q' :=
  fun s hs hΓ => ⟨(h s hs hΓ).1.mono fun a t => himp a (t.context env), (h s hs hΓ).2⟩

theorem pure {a : α} (h : Q a Γ) : (pure a : CheckM α).Ensures D env Γ Q :=
  fun _ hs hΓ => ⟨.ok hs (hΓ ▸ h), rfl⟩

theorem fail (cause : Cause) (line : UInt32) :
    (CheckM.fail cause line : CheckM α).Ensures D env Γ Q :=
  fun _ hs _ => ⟨.error hs, rfl⟩

theorem view {f : Env → State → α} (hseen : ∀ s, f env (env.shifted s) = f env s)
    (h : ∀ s : State, s.WellFormed D → s.context env = Γ → Q (f env s) Γ) :
    (CheckM.view f).Ensures D env Γ Q :=
  fun s hs hΓ => ⟨.ok hs (hΓ.symm ▸ h s hs hΓ), .view (hseen s)⟩

theorem bind {x : CheckM α} {f : α → CheckM β} (hx : x.Ensures D env Γ Q)
    (hf : ∀ a Γ', Q a Γ' → (f a).Ensures D env Γ' R) : (x >>= f).Ensures D env Γ R := by
  intro s hs hΓ
  rcases hx s hs hΓ with ⟨houtcome, hunaffected⟩
  refine ⟨houtcome.bind fun a t ht ha => (hf a (t.context env) ha t ht rfl).1,
    hunaffected.bind fun a t hrun => ?_⟩
  rw [hrun] at houtcome
  exact (hf a (t.context env) (houtcome.value rfl) t houtcome.wellFormed rfl).2

theorem require {ok : Bool} {cause : Cause} {line : UInt32} {Q : Unit → Context → Prop}
    (h : ok → Q () Γ) : (CheckM.require ok cause line).Ensures D env Γ Q := by
  unfold CheckM.require
  cases ok with
  | true => exact .pure (h rfl)
  | false => exact .fail cause line

theorem orFail {o : Option α} {cause : Cause} {line : UInt32} (h : ∀ a, o = some a → Q a Γ) :
    (CheckM.orFail o cause line).Ensures D env Γ Q := by
  cases o with
  | none => exact .fail cause line
  | some a => exact .pure (h a rfl)

theorem mapCause {x : CheckM α} (h : x.Ensures D env Γ Q) (f : Cause → Cause) :
    (CheckM.mapCause f x).Ensures D env Γ Q := by
  intro s hs hΓ
  rcases h s hs hΓ with ⟨hx, hunaffected⟩
  refine ⟨?_, hunaffected.mapCause f⟩
  unfold CheckM.mapCause
  rcases hrun : x env s with ⟨r, t⟩
  rw [hrun] at hx
  cases r with
  | ok a => exact hx
  | error e => exact ⟨hx.released, hx.wellFormed, hx.reported, fun h => by cases h⟩

end Ensures

namespace Yields

variable {P : α → Prop} {R : β → Context → Prop}

theorem mono {x : CheckM α} {P' : α → Prop} (h : x.Yields D env Γ P) (himp : ∀ a, P a → P' a) :
    x.Yields D env Γ P' :=
  Ensures.mono h fun a _ ha => ⟨ha.1, himp a ha.2⟩

theorem pure {a : α} (h : P a) : (pure a : CheckM α).Yields D env Γ P :=
  Ensures.pure ⟨rfl, h⟩

theorem fail (cause : Cause) (line : UInt32) :
    (CheckM.fail cause line : CheckM α).Yields D env Γ P :=
  Ensures.fail cause line

theorem view {f : Env → State → α} (hseen : ∀ s, f env (env.shifted s) = f env s)
    (h : ∀ s : State, s.WellFormed D → s.context env = Γ → P (f env s)) :
    (CheckM.view f).Yields D env Γ P :=
  Ensures.view hseen fun s hs hΓ => ⟨rfl, h s hs hΓ⟩

theorem bind {x : CheckM α} {f : α → CheckM β} (hx : x.Yields D env Γ P)
    (hf : ∀ a, P a → (f a).Ensures D env Γ R) : (x >>= f).Ensures D env Γ R :=
  Ensures.bind hx fun a _ ha => ha.1 ▸ hf a ha.2

theorem require {ok : Bool} {cause : Cause} {line : UInt32} :
    (CheckM.require ok cause line).Yields D env Γ fun _ => ok :=
  Ensures.require fun h => ⟨rfl, h⟩

theorem orFail {o : Option α} {cause : Cause} {line : UInt32} :
    (CheckM.orFail o cause line).Yields D env Γ fun a => o = some a :=
  Ensures.orFail fun _ h => ⟨rfl, h⟩

theorem collect_forall₂ {γ : Type} {P : γ → α → Prop} {cs : List γ} {xs : List (CheckM α)}
    (h : List.Forall₂ (fun c x => CheckM.Yields D env Γ x (P c)) cs xs) :
    (CheckM.collect xs).Yields D env Γ fun as => List.Forall₂ P cs as := by
  induction h with
  | nil => exact .pure .nil
  | cons hx _ ih => exact hx.bind fun a ha => ih.bind fun as has => Yields.pure (.cons ha has)

theorem collect {xs : List (CheckM α)} (h : ∀ x ∈ xs, x.Yields D env Γ P) :
    (CheckM.collect xs).Yields D env Γ fun as => ∀ a ∈ as, P a := by
  induction xs with
  | nil => exact .pure fun a ha => absurd ha List.not_mem_nil
  | cons x xs ih =>
      have hx := h x List.mem_cons_self
      have hxs := ih fun y hy => h y (List.mem_cons_of_mem _ hy)
      refine hx.bind fun a ha => hxs.bind fun as has => Yields.pure ?_
      intro b hb
      rcases List.mem_cons.mp hb with rfl | hb
      · exact ha
      · exact has b hb

theorem optional {x : Option (CheckM α)} (h : ∀ y ∈ x, CheckM.Yields D env Γ y P) :
    (CheckM.optional x).Yields D env Γ fun o => ∀ a, o = some a → P a := by
  cases x with
  | none => exact .pure fun a ha => by cases ha
  | some y =>
      refine (h y rfl).bind fun a ha => Yields.pure ?_
      rintro b ⟨⟩
      exact ha

end Yields

/-!
# Scopes, enclosing constructs and declarations
-/

theorem onSymbols_leave_shifted (env : Surroundings) (s : State) :
    onSymbols (·.leave env.space) (env.shifted s) =
      env.shifted (onSymbols (·.leave env.space) s) := by
  dsimp only [Surroundings.shifted, onSymbols, SymbolTable.leave, SymbolTable.shiftImports]
  rcases s.session.symbols.spaces.get? env.space with _ | ⟨nested, root⟩
  · rfl
  · cases nested <;> rfl

theorem Yields.inScope {x : CheckM α} {P : α → Prop}
    (h : x.Ensures D env Γ.push fun a _ => P a) : (CheckM.inScope x).Yields D env Γ P := by
  intro s hs hΓ
  have hentered : (onSymbols (·.enter env.space) s).WellFormed D :=
    ⟨⟨hs.session.symbols.enter env.space, hs.session.compiled⟩, hs.classes⟩
  have hcontext : (onSymbols (·.enter env.space) s).context env = Γ.push := by
    subst hΓ
    unfold State.context onSymbols SymbolTable.enter
    rw [SymbolTable.scopesOf_setScopes_self]
    rfl
  rcases h _ hentered hcontext with ⟨hx, hunaffected⟩
  -- what is bound inside is in the scope that is left, and so nothing of it remains
  have hleave := hx.released.session.symbols.leave_eq
  refine ⟨?_, hunaffected.around rfl (onSymbols_leave_shifted env)⟩
  refine ⟨⟨⟨hx.released.session.symbols.leave, hx.released.session.underWay⟩,
    hx.released.classes, hx.released.exprs, hx.released.stmts⟩, ?_, hx.reported, fun ha => ?_⟩
  · refine ⟨⟨?_, hx.wellFormed.session.compiled⟩, hx.wellFormed.classes⟩
    show (SymbolTable.leave _ _).WellFormed D
    rw [hleave]
    exact hx.wellFormed.session.symbols.setScopes _ (hs.session.symbols.scopesOf env.space)
  · refine ⟨?_, hx.value ha⟩
    subst hΓ
    have hscopes : ((x env (onSymbols (·.enter env.space) s)).2.session.symbols.leave
        env.space).scopesOf env.space = s.session.symbols.scopesOf env.space := by
      rw [hleave, SymbolTable.scopesOf_setScopes_self]
    have hshares := Session.shares_congr hx.released.session.underWay
    have hclasses := hx.released.classes
    show Context.mk _ _ _ = Context.mk _ _ _
    congr 1
    · exact congrArg ContextStack.top? hclasses
    · exact congrFun hshares env.space

theorem Ensures.inStmt {x : CheckM α} {Q : α → Context → Prop} (c : StmtContext)
    (h : x.Ensures D env Γ Q) : (CheckM.inStmt c x).Ensures D env Γ Q := by
  intro s hs hΓ
  obtain ⟨hx, hunaffected⟩ :=
    h { s with stmts := s.stmts.push c } ⟨hs.session, hs.classes⟩ hΓ
  exact ⟨⟨⟨hx.released.session, hx.released.classes, hx.released.exprs,
    congrArg ContextStack.pop hx.released.stmts⟩, ⟨hx.wellFormed.session, hx.wellFormed.classes⟩,
    hx.reported, hx.value⟩, hunaffected.around rfl fun _ => rfl⟩

theorem Ensures.inExpr {x : CheckM α} {Q : α → Context → Prop} (c : ExprContext)
    (h : x.Ensures D env Γ Q) : (CheckM.inExpr c x).Ensures D env Γ Q := by
  intro s hs hΓ
  obtain ⟨hx, hunaffected⟩ :=
    h { s with exprs := s.exprs.push c } ⟨hs.session, hs.classes⟩ hΓ
  exact ⟨⟨⟨hx.released.session, hx.released.classes,
    congrArg ContextStack.pop hx.released.exprs, hx.released.stmts⟩,
    ⟨hx.wellFormed.session, hx.wellFormed.classes⟩, hx.reported, hx.value⟩,
    hunaffected.around rfl fun _ => rfl⟩

theorem Yields.inClass {x : CheckM α} {P : α → Prop} {c : ClassTy}
    (hc : (Ty.classTy c).WellFormed D) (h : x.Yields D env (Γ.inClass c) P) :
    (CheckM.inClass c x).Yields D env Γ P := by
  intro s hs hΓ
  have hentered : State.WellFormed D { s with classes := s.classes.push c } := by
    refine ⟨hs.session, fun d hd => ?_⟩
    rcases List.mem_cons.mp hd with rfl | hd
    · exact hc
    · exact hs.classes d hd
  have hcontext : State.context env { s with classes := s.classes.push c } = Γ.inClass c := by
    subst hΓ
    rfl
  rcases h _ hentered hcontext with ⟨hx, hunaffected⟩
  refine ⟨?_, hunaffected.around rfl fun _ => rfl⟩
  have hclasses : (x env { s with classes := s.classes.push c }).2.classes.pop = s.classes :=
    congrArg ContextStack.pop hx.released.classes
  refine ⟨⟨hx.released.session, hclasses, hx.released.exprs, hx.released.stmts⟩,
    ⟨hx.wellFormed.session, fun d hd => hs.classes d (hclasses ▸ hd)⟩, hx.reported, fun ha => ?_⟩
  rcases hx.value ha with ⟨hΓ', ha⟩
  refine ⟨?_, ha⟩
  have hscopes := congrArg Context.scopes hΓ'
  have hshared := congrArg Context.shared hΓ'
  subst hΓ
  show Context.mk _ _ _ = Context.mk _ _ _
  congr 1
  · exact congrArg ContextStack.top? hclasses

theorem Ensures.declare {Q : Unit → Context → Prop} (name : String) {ty : Ty}
    (hty : ty.WellFormed D) (h : Q () (Γ.bind name ty)) :
    (CheckM.declare name ty).Ensures D env Γ Q := by
  intro s hs hΓ
  refine ⟨⟨.bind s _ _ _, ⟨⟨hs.session.symbols.bind _ _ hty, hs.session.compiled⟩, hs.classes⟩, id,
    fun ha => ?_⟩, rfl⟩
  cases ha
  have hcontext : (CheckM.declare name ty env s).2.context env = Γ.bind name ty := by
    subst hΓ
    show Context.mk ((SymbolTable.setScopes _ _ _).scopesOf _) _ _ = _
    rw [SymbolTable.scopesOf_setScopes_self]
    rfl
  exact hcontext.symm ▸ h

theorem Ensures.declareAll {Q : Unit → Context → Prop} {bindings : List (String × Ty)}
    (hbindings : ∀ b ∈ bindings, b.2.WellFormed D) (h : Q () (Γ.bindAll bindings)) :
    (CheckM.declareAll bindings).Ensures D env Γ Q := by
  induction bindings generalizing Γ with
  | nil => exact .pure h
  | cons b rest ih =>
      have hrest := ih (Γ := Γ.bind b.1 b.2) (fun c hc => hbindings c (List.mem_cons_of_mem _ hc)) h
      exact Ensures.bind (Ensures.declare (Q := fun _ Γ' => Γ' = Γ.bind b.1 b.2) b.1
        (hbindings b List.mem_cons_self) rfl) fun _ _ hΓ => hΓ ▸ hrest

end CheckM
end StaticTyping
