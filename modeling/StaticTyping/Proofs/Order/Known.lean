import StaticTyping.Proofs.Order.Standard

/-!
# Classes and functions that are known

In the second pass the signatures of all classes and functions are bound.  The check of one of them
then leaves no trace but standard packages, and so the checks of two can be exchanged.
-/

namespace StaticTyping

open CheckM

theorem Scopes.bind_eq_self {s : Scopes} {name : String} {ty : Ty}
    (h : s.innermost.get? name = some ty) : s.bind name ty = s := by
  rcases s with ⟨nested, root⟩
  cases nested with
  | nil => exact congrArg (Scopes.mk []) (Dict.insert_eq_self h)
  | cons scope outer =>
      exact congrArg (fun scope => Scopes.mk (scope :: outer) root) (Dict.insert_eq_self h)

def Context.Binds (Γ : Context) (name : String) (ty : Ty) : Prop :=
  Γ.scopes.innermost.get? name = some ty

theorem Context.Binds.bind_eq {Γ : Context} {name : String} {ty : Ty} (h : Γ.Binds name ty) :
    Γ.bind name ty = Γ := by
  unfold Context.bind
  rw [Scopes.bind_eq_self h]

theorem State.Demands.eq_addStandards {env : Env} {s t : State} (h : s.Demands env t)
    (hreleased : s.Released t) (hcontext : t.context env = s.context env)
    {name : String} {ty : Ty} (hbinds : (s.context env).Binds name ty) :
    ∃ ps, (∀ p ∈ ps, p ∈ Library.onDemand) ∧
      t = onSymbols (·.addStandards env.file ps) s := by
  rcases h.imports with ⟨ps, hps, himports⟩
  refine ⟨ps, hps, ?_⟩
  -- the module has a namespace, since it binds a name; so the context determines the entry
  have hown : t.session.symbols.spaces.get? env.space =
      s.session.symbols.spaces.get? env.space := by
    cases hspace : s.session.symbols.spaces.get? env.space with
    | none =>
        have hempty : s.session.symbols.scopesOf env.space = .empty := by
          simp [SymbolTable.scopesOf, hspace]
        have hget : (s.session.symbols.scopesOf env.space).innermost.get? name = some ty := hbinds
        rw [hempty] at hget
        cases hget
    | some scopes =>
        rcases hreleased.session.symbols.kept hspace with ⟨scopes', hspace', _⟩
        have hscopes : t.session.symbols.scopesOf env.space =
            s.session.symbols.scopesOf env.space := congrArg Context.scopes hcontext
        simp only [SymbolTable.scopesOf, hspace, hspace', Option.getD_some] at hscopes
        rw [hspace', hscopes]
  have hspaces : t.session.symbols.spaces = s.session.symbols.spaces := by
    apply Dict.ext_get?
    intro space
    by_cases hspace : space = env.space
    · rw [hspace, hown]
    · exact h.spaces hspace
  have hsymbols : t.session.symbols = s.session.symbols.addStandards env.file ps := by
    rw [← SymbolTable.spaces_addStandards s.session.symbols env.file ps] at hspaces
    have hexits := hreleased.session.symbols.rootExits
    rw [← SymbolTable.rootExits_addStandards s.session.symbols env.file ps] at hexits
    generalize s.session.symbols.addStandards env.file ps = u at hspaces hexits himports ⊢
    rcases u with ⟨⟩
    rcases t with ⟨⟨⟨⟩, _, _, _⟩, _, _, _, _⟩
    cases hspaces
    cases hexits
    cases himports
    rfl
  rcases s with ⟨⟨_, _, _, _⟩, _, _, _, _⟩
  rcases t with ⟨⟨_, _, _, _⟩, _, _, _, _⟩
  cases hsymbols
  cases h.compiled
  cases h.requested
  cases hreleased.session.underWay
  cases hreleased.classes
  cases hreleased.exprs
  cases hreleased.stmts
  cases h.report
  rfl

def State.Visible (env : Env) (hidden : List String) (s : State) : Prop :=
  ∀ p ∈ Library.onDemand, p.2 ∉ hidden → s.Imported env p.2

theorem State.WellFormed.addStandard {D : Discipline} {s : State} (h : s.WellFormed D)
    (file : String) {p : String × String} (hp : p ∈ Library.onDemand) :
    (onSymbols (·.addStandard file p.1 p.2) s).WellFormed D := by
  refine ⟨⟨?_, h.session.compiled⟩, h.classes⟩
  show (s.session.symbols.addStandard file p.1 p.2).WellFormed D
  unfold SymbolTable.addStandard
  split
  next hm =>
    exact h.session.symbols.addModule file (Library.standard?_wellFormed hm) fun q hq _ hspace =>
      Library.standard?_of_localName_eq hq hp hspace hm
  next => exact h.session.symbols

theorem CheckM.unaffected_addStandards {α : Type} {D : Discipline} {env : Env}
    {hidden : List String} {x : CheckM α}
    (hx : ∀ {p} (hp : p ∈ Library.onDemand), p.2 ∈ hidden → ∀ s : State, s.WellFormed D →
      x.Unaffected (env.adding hp) s)
    (hkeeps : ∀ (s : State) localName, s.Imported env localName →
      (x env s).2.Imported env localName)
    {ps : List (String × String)} (hps : ∀ p ∈ ps, p ∈ Library.onDemand) {s : State}
    (hs : s.WellFormed D) (hvisible : s.Visible env hidden) :
    x env (onSymbols (·.addStandards env.file ps) s) =
      ((x env s).1, onSymbols (·.addStandards env.file ps) (x env s).2) := by
  induction ps generalizing s with
  | nil => rfl
  | cons p ps ih =>
      rcases List.forall_mem_cons.mp hps with ⟨hp, hps⟩
      have hone : x env (onSymbols (·.addStandard env.file p.1 p.2) s) =
          ((x env s).1, onSymbols (·.addStandard env.file p.1 p.2) (x env s).2) := by
        by_cases hhidden : p.2 ∈ hidden
        · have hunaffected := hx hp hhidden s hs
          unfold Unaffected at hunaffected
          rw [Env.shifted_adding, Env.shifted_adding] at hunaffected
          exact hunaffected
        · -- the package is there already, before the check and after it
          have hbefore := hvisible p hp hhidden
          have hsame : ∀ {u : State}, u.Imported env p.2 →
              onSymbols (·.addStandard env.file p.1 p.2) u = u := by
            intro u hu
            unfold onSymbols
            dsimp only
            rw [SymbolTable.addStandard_eq_self hu]
          rw [hsame hbefore, hsame (hkeeps s p.2 hbefore)]
      have hrest := ih hps (hs.addStandard env.file hp) fun q hq hhidden =>
        SymbolTable.imported?_addStandard (hvisible q hq hhidden)
      rw [hone] at hrest
      exact hrest

/-- An item whose check binds a name, imports nothing and names no hidden import. -/
structure KnownItem (D : Discipline) (hidden : List String) (item : Item) (name : String)
    (ty : Ty) : Prop where
  ensures : ∀ env : Surroundings, env.load.Sound D → (∀ {name}, name ∉ hidden → env.sees name) →
    ∀ Γ : Context, (Checker.finishItem item).Ensures D env Γ fun _ Γ' => Γ' = Γ.bind name ty
  demands : ∀ (env : Env) (s : State), s.Demands env (Checker.finishItem item env s).2

namespace KnownItem

variable {D : Discipline} {hidden : List String} {item : Item} {name : String} {ty : Ty}
  (h : KnownItem D hidden item name ty)
include h

theorem adds {env : Env} (hload : env.load.Sound D) {s t : State} {typed : Typed.Stmt}
    (hs : s.WellFormed D) (hbinds : (s.context env).Binds name ty)
    (hrun : Checker.finishItem item env s = (.ok typed, t)) :
    ∃ ps, (∀ p ∈ ps, p ∈ Library.onDemand) ∧ t = onSymbols (·.addStandards env.file ps) s := by
  have houtcome := (h.ensures env.unshifted hload (fun _ => trivial) _ s hs rfl).1
  have hdemands := h.demands env s
  rw [Env.toEnv_unshifted, hrun] at houtcome
  rw [hrun] at hdemands
  have hcontext : t.context env = s.context env :=
    (houtcome.value rfl).trans hbinds.bind_eq
  exact hdemands.eq_addStandards houtcome.released hcontext hbinds

theorem unaffectedAll {env : Env} (hload : env.load.Sound D) {ps : List (String × String)}
    (hps : ∀ p ∈ ps, p ∈ Library.onDemand) {s : State} (hs : s.WellFormed D)
    (hvisible : s.Visible env hidden) :
    Checker.finishItem item env (onSymbols (·.addStandards env.file ps) s) =
      ((Checker.finishItem item env s).1,
        onSymbols (·.addStandards env.file ps) (Checker.finishItem item env s).2) := by
  refine unaffected_addStandards (fun {p} hp hhidden s hs => ?_) (fun s localName himported => ?_)
    hps hs hvisible
  · have hsees : ∀ {name}, name ∉ hidden → (env.adding hp).sees name := by
      rintro name hname rfl
      exact hname hhidden
    exact (h.ensures (env.adding hp) hload hsees _ s hs rfl).2
  · rcases (h.demands env s).imports with ⟨ps, _, himports⟩
    unfold State.Imported SymbolTable.imported? SymbolTable.importsOf
    rw [himports]
    exact SymbolTable.imported?_addStandards himported ps

end KnownItem

theorem KnownItem.exchange {D : Discipline} {env : Env} {hidden : List String} {x y : Item}
    {name₁ name₂ : String} {ty₁ ty₂ : Ty} (h₁ : KnownItem D hidden x name₁ ty₁)
    (h₂ : KnownItem D hidden y name₂ ty₂) (hload : env.load.Sound D) {s t u : State}
    {typed₁ typed₂ : Typed.Stmt} (hs : s.WellFormed D) (hvisible : s.Visible env hidden)
    (hbinds₁ : (s.context env).Binds name₁ ty₁) (hbinds₂ : (s.context env).Binds name₂ ty₂)
    (hrun₁ : Checker.finishItem x env s = (.ok typed₁, t))
    (hrun₂ : Checker.finishItem y env t = (.ok typed₂, u)) :
    ∃ v, Checker.finishItem y env s = (.ok typed₂, v) ∧
      Checker.finishItem x env v = (.ok typed₁, u) := by
  rcases h₁.adds hload hs hbinds₁ hrun₁ with ⟨ps, hps, rfl⟩
  rw [h₂.unaffectedAll hload hps hs hvisible] at hrun₂
  rcases hfirst : Checker.finishItem y env s with ⟨r, v⟩
  rw [hfirst] at hrun₂
  cases hrun₂
  rcases h₂.adds hload hs hbinds₂ hfirst with ⟨qs, hqs, rfl⟩
  refine ⟨_, rfl, ?_⟩
  rw [h₁.unaffectedAll hload hqs hs hvisible, hrun₁]
  show (Except.ok typed₁, onSymbols (·.addStandards env.file qs)
    (onSymbols (·.addStandards env.file ps) s)) = _
  unfold onSymbols
  dsimp only
  rw [SymbolTable.addStandards_comm _ _ hps hqs]

/-!
# Classes and functions
-/

section

variable {D : Discipline} {hidden : List String} {span : Span} {g g' : Stage}

theorem KnownItem.classDecl {d : Source.ClassDecl} {c : ClassTy}
    (hclosed : Source.Met ((⟨.classDecl d, span⟩ : Source.Stmt).meets (D.closed hidden)))
    (hrow : Row D ⟨.classDecl d, span⟩ g (.classDecl d span c) g') :
    KnownItem D hidden (.classDecl d span c) d.name.name (.classTy c) where
  ensures env hload hsees Γ := by
    apply ((Premises.closed hload hsees).finishItem hclosed hrow Γ).mono
    intro t Γ' hfinish
    rcases hfinish with ⟨fs, _, hΓ', _⟩
    exact hΓ'
  demands env s := by
    have hd : Source.Met (d.meets (D.closed hidden)) := hclosed
    exact (Frame.onDemand env D hidden).closure.classWith d (.inr hd) (.pure c) span s

theorem KnownItem.function {h : Source.Head} {body : Source.Block} {f : NamedFunction}
    (hclosed : Source.Met ((⟨.function h body, span⟩ : Source.Stmt).meets (D.closed hidden)))
    (hrow : Row D ⟨.function h body, span⟩ g (.function h body span f) g') :
    KnownItem D hidden (.function h body span f) h.name.name (.named f) where
  ensures env hload hsees Γ := by
    apply ((Premises.closed hload hsees).finishItem hclosed hrow Γ).mono
    intro t Γ' hfinish
    rcases hfinish with ⟨f', _, hname, hsig, hΓ', _⟩
    rw [hΓ', hname, hsig]
  demands env s := by
    have hparts : Source.Met (h.meets (D.closed hidden) && body.meets (D.closed hidden)) := hclosed
    let F := Frame.onDemand env D hidden
    exact F.closure.functionDecl h.name (.pure f) (F.closure.blockOf body (.inr hparts.right)) span s

end

end StaticTyping
