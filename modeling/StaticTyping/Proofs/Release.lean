import StaticTyping.Proofs.Frame
import StaticTyping.Proofs.Loading

/-!
# Scopes and constructs are left on every path

Whichever way a check ends, the stacks of enclosing constructs and the packages under way are as
they were.  A namespace that was there has as many scopes as before, all but the innermost
unchanged; one that has come into being has its root alone; and no root was ever to be left.
-/

namespace StaticTyping

open CheckM

def Scopes.below (s : Scopes) : List Scope :=
  s.toList.tail

namespace Scopes

@[simp] theorem below_empty : empty.below = [] :=
  rfl

@[simp] theorem below_bind (s : Scopes) (name : String) (ty : Ty) :
    (s.bind name ty).below = s.below := by
  rcases s with ⟨nested, root⟩
  cases nested <;> rfl

theorem toList_injective {s s' : Scopes} (h : s.toList = s'.toList) : s = s' := by
  rcases s with ⟨nested, root⟩
  rcases s' with ⟨nested', root'⟩
  rcases List.append_inj' h rfl with ⟨hnested, hroot⟩
  cases hnested
  cases hroot
  rfl

theorem length_below (s : Scopes) : s.below.length = s.nested.length := by
  simp [below, toList]

theorem exists_nested_of_below_eq_toList {s s' : Scopes} (h : s'.below = s.toList) :
    ∃ inner, s' = ⟨inner :: s.nested, s.root⟩ := by
  rcases s' with ⟨nested, root⟩
  cases nested with
  | nil =>
      have hlength := congrArg List.length h
      simp [below, toList] at hlength
  | cons inner outer =>
      have hpop : (⟨outer, root⟩ : Scopes) = s := toList_injective h
      exact ⟨inner, by rw [← hpop]⟩

end Scopes

namespace SymbolTable

structure Released (t u : SymbolTable) : Prop where
  kept : ∀ {space scopes}, t.spaces.get? space = some scopes →
    ∃ scopes', u.spaces.get? space = some scopes' ∧ scopes'.depth = scopes.depth ∧
      scopes'.below = scopes.below
  fresh : ∀ {space scopes'}, t.spaces.get? space = none → u.spaces.get? space = some scopes' →
    scopes'.depth = 1
  rootExits : u.rootExits = t.rootExits

namespace Released

variable {t u v : SymbolTable}

theorem of_spaces_eq (hspaces : u.spaces = t.spaces) (hexits : u.rootExits = t.rootExits) :
    t.Released u where
  kept h := ⟨_, hspaces ▸ h, rfl, rfl⟩
  fresh hnone hsome := by
    rw [hspaces, hnone] at hsome
    cases hsome
  rootExits := hexits

theorem refl (t : SymbolTable) : t.Released t :=
  of_spaces_eq rfl rfl

theorem trans (h : t.Released u) (h' : u.Released v) : t.Released v where
  kept hspace := by
    rcases h.kept hspace with ⟨scopes', hu, hdepth, hbelow⟩
    rcases h'.kept hu with ⟨scopes'', hv, hdepth', hbelow'⟩
    exact ⟨scopes'', hv, hdepth'.trans hdepth, hbelow'.trans hbelow⟩
  fresh {space scopes''} hnone hv := by
    cases hu : u.spaces.get? space with
    | none => exact h'.fresh hu hv
    | some scopes' =>
        rcases h'.kept hu with ⟨_, hv', hdepth, _⟩
        rw [hv] at hv'
        cases hv'
        exact hdepth.trans (h.fresh hnone hu)
  rootExits := h'.rootExits.trans h.rootExits

theorem bind (t : SymbolTable) (space name : String) (ty : Ty) :
    t.Released (t.bind space name ty) where
  kept {other scopes} hother := by
    by_cases h : other = space
    · subst h
      refine ⟨scopes.bind name ty, ?_, Scopes.depth_bind _ _ _, Scopes.below_bind _ _ _⟩
      simp [SymbolTable.bind, setScopes, scopesOf, hother]
    · exact ⟨scopes, by simpa [SymbolTable.bind, setScopes, Dict.get?_insert, h] using hother,
        rfl, rfl⟩
  fresh {other scopes'} hnone hsome := by
    by_cases h : other = space
    · subst h
      simp only [SymbolTable.bind, setScopes, scopesOf, hnone, Dict.get?_insert_self] at hsome
      cases hsome
      exact Scopes.depth_bind _ _ _
    · simp [SymbolTable.bind, setScopes, Dict.get?_insert, h, hnone] at hsome
  rootExits := rfl

theorem addModule (t : SymbolTable) (file localName : String) (m : ModuleTy) :
    t.Released (t.addModule file localName m) :=
  of_spaces_eq rfl rfl

theorem leave_eq {space : String} (h : (t.enter space).Released u) :
    u.leave space = u.setScopes space (t.scopesOf space) := by
  have hentered : (t.enter space).spaces.get? space = some (t.scopesOf space).push := by
    simp [enter, setScopes]
  rcases h.kept hentered with ⟨scopes', hu, _, hbelow⟩
  rcases Scopes.exists_nested_of_below_eq_toList hbelow with ⟨inner, rfl⟩
  unfold leave
  rw [hu]
  rfl

theorem leave {space : String} (h : (t.enter space).Released u) : t.Released (u.leave space) := by
  rw [h.leave_eq]
  refine ⟨fun {other scopes} hother => ?_, fun {other scopes'} hnone hsome => ?_, h.rootExits⟩
  · by_cases ho : other = space
    · subst ho
      exact ⟨scopes, by simp [setScopes, scopesOf, hother], rfl, rfl⟩
    · have hentered : (t.enter space).spaces.get? other = some scopes := by
        simpa [enter, setScopes, Dict.get?_insert, ho] using hother
      rcases h.kept hentered with ⟨scopes', hu, hrest⟩
      exact ⟨scopes', by simpa [setScopes, Dict.get?_insert, ho] using hu, hrest⟩
  · by_cases ho : other = space
    · subst ho
      simp only [setScopes, scopesOf, hnone, Dict.get?_insert_self] at hsome
      cases hsome
      rfl
    · have hentered : (t.enter space).spaces.get? other = none := by
        simpa [enter, setScopes, Dict.get?_insert, ho] using hnone
      exact h.fresh hentered (by simpa [setScopes, Dict.get?_insert, ho] using hsome)

theorem below_scopesOf (h : t.Released u) (space : String) :
    (u.scopesOf space).below = (t.scopesOf space).below := by
  cases ht : t.spaces.get? space with
  | some scopes =>
      rcases h.kept ht with ⟨scopes', hu, _, hbelow⟩
      simpa [scopesOf, ht, hu] using hbelow
  | none =>
      cases hu : u.spaces.get? space with
      | none => simp [scopesOf, ht, hu]
      | some scopes' =>
          have hdepth := h.fresh ht hu
          have hnil : scopes'.below = [] := by
            apply List.eq_nil_of_length_eq_zero
            rw [Scopes.length_below]
            exact Nat.succ.inj hdepth
          simpa [scopesOf, ht, hu] using hnil

end Released
end SymbolTable

/-- A session has released what it has entered. -/
structure Session.Released (σ τ : Session) : Prop where
  symbols : σ.symbols.Released τ.symbols
  underWay : τ.underWay = σ.underWay

/-- A state has released what it has entered. -/
structure State.Released (s t : State) : Prop where
  session : s.session.Released t.session
  classes : t.classes = s.classes
  exprs : t.exprs = s.exprs
  stmts : t.stmts = s.stmts

namespace Session.Released

variable {σ τ υ : Session}

theorem refl (σ : Session) : σ.Released σ :=
  ⟨.refl _, rfl⟩

theorem trans (h : σ.Released τ) (h' : τ.Released υ) : σ.Released υ :=
  ⟨h.symbols.trans h'.symbols, h'.underWay.trans h.underWay⟩

end Session.Released

def Loader.Releases (load : Loader) : Prop :=
  ∀ (package : String) (σ : Session), σ.Released (load package σ).2

namespace State.Released

variable {s t u : State}

theorem refl (s : State) : s.Released s :=
  ⟨.refl _, rfl, rfl, rfl⟩

theorem trans (h : s.Released t) (h' : t.Released u) : s.Released u :=
  ⟨h.session.trans h'.session, h'.classes.trans h.classes, h'.exprs.trans h.exprs,
    h'.stmts.trans h.stmts⟩

theorem bind (s : State) (space name : String) (ty : Ty) :
    s.Released (onSymbols (·.bind space name ty) s) :=
  ⟨⟨.bind _ _ _ _, rfl⟩, rfl, rfl, rfl⟩

theorem addModule (s : State) (file localName : String) (m : ModuleTy) :
    s.Released (onSymbols (·.addModule file localName m) s) :=
  ⟨⟨.addModule _ _ _ _, rfl⟩, rfl, rfl, rfl⟩

theorem importStandard (package localName : String) (env : Env) (s : State) :
    s.Released (CheckM.importStandard package localName env s).2 := by
  rcases importStandard_cases package localName env s with h | ⟨m, _, h⟩
  · rw [h]
    exact refl s
  · rw [h]
    exact addModule s _ _ m

theorem loadPackage {env : Env} (hload : env.load.Releases) (package : String) (line : UInt32)
    (s : State) : s.Released (CheckM.loadPackage package line env s).2 := by
  have h := hload package s.session
  unfold CheckM.loadPackage
  rcases hrun : env.load package s.session with ⟨r, τ⟩
  rw [hrun] at h
  have hstate : s.Released { s with session := τ } := ⟨h, rfl, rfl, rfl⟩
  cases r with
  | ok m => exact hstate
  | error e =>
      cases e with
      | cycle => exact hstate
      | unavailable reason => exact hstate
      | failed errors => exact ⟨h, rfl, rfl, rfl⟩

theorem importModule {env : Env} (hload : env.load.Releases) (i : Source.Import) (s : State) :
    s.Released (CheckM.importModule i env s).2 := by
  have h := loadPackage hload i.package.name i.span.line s
  rcases hrun : CheckM.loadPackage i.package.name i.span.line env s with ⟨r, t⟩
  rw [hrun] at h
  cases r with
  | error e =>
      have hfail : CheckM.importModule i env s = (.error e, t) := bind_apply_of_error hrun
      rw [hfail]
      exact h
  | ok m =>
      have hok : CheckM.importModule i env s =
          (.ok ⟨i.package.name, i.space⟩,
            CheckM.onSymbols (·.addModule env.file i.space m) t) := bind_apply_of_ok hrun
      rw [hok]
      exact h.trans (addModule t _ _ _)

end State.Released

def Frame.release (env : Env) (hload : env.load.Releases) : Frame env {} where
  rel := State.Released
  imports := True
  one _ := .inl trivial
  many _ := .inl trivial
  refl := .refl
  trans := .trans
  declare _ _ s := .bind s _ _ _
  standard _ s := .importStandard _ _ env s
  importModule _ := .importModule hload
  inScope h := ⟨⟨h.session.symbols.leave, h.session.underWay⟩, h.classes, h.exprs, h.stmts⟩
  inStmt h := ⟨h.session, h.classes, h.exprs, congrArg ContextStack.pop h.stmts⟩
  inExpr h := ⟨h.session, h.classes, congrArg ContextStack.pop h.exprs, h.stmts⟩
  inClass h := ⟨h.session, congrArg ContextStack.pop h.classes, h.exprs, h.stmts⟩
  report _ _ _ := ⟨.refl _, rfl, rfl, rfl⟩

/-!
# Files, packages and sessions
-/

section

variable (settings : Settings) {load : Loader}

theorem Session.Released.runFile (hload : load.Releases) (file : Source.File) (σ : Session) :
    σ.Released (Checker.runFile settings load file σ).2 := by
  refine Frame.runFile Session.Released.refl Session.Released.trans fun {name env} henv => ?_
  rcases Option.map_eq_some_iff.mp henv with ⟨_, _, hpair⟩
  have hrelease : env.load.Releases := by
    cases hpair
    exact hload
  exact ⟨Frame.release env hrelease, trivial, State.Released.session⟩

theorem Session.Released.compileAll (hload : load.Releases) (files : List Source.File)
    (c : Compilation) (σ : Session) :
    σ.Released (Session.compileAll settings load files c σ).2 := by
  induction files generalizing c σ with
  | nil => exact .refl σ
  | cons file files ih => exact (runFile settings hload file σ).trans (ih _ _)

theorem Session.Released.compile (hload : load.Releases) (package : String)
    (files : List Source.File) (σ : Session) :
    σ.Released (Session.compile settings load package files σ).2 := by
  have h := compileAll settings hload files (.start settings) (σ.beginPackage package)
  have hended : σ.Released (Session.compileAll settings load files (.start settings)
      (σ.beginPackage package)).2.endPackage :=
    ⟨h.symbols, congrArg List.tail h.underWay⟩
  unfold Session.compile
  dsimp only
  split
  · exact ⟨hended.symbols, hended.underWay⟩
  · exact hended

end

theorem Session.load_releases (settings : Settings) (packages : Resolver) (depth : Nat) :
    (Session.load settings packages depth).Releases := by
  refine Session.load_induction (P := fun _ σ r => σ.Released r.2) (fun σ _ => .refl σ)
    (fun _ => .refl _) (fun _ σ => .refl σ) (fun _ _ => ⟨.refl _, rfl⟩)
    (fun {depth package files σ} ih _ => ?_) depth
  have h := Session.Released.compile settings ih package files
    (σ.request (settings.pathOf package))
  exact ⟨h.symbols, h.underWay⟩

/-- At rest a session has no package under way, no namespace with a nested scope, and no record of
a root that was to be left. -/
structure Session.AtRest (σ : Session) : Prop where
  underWay : σ.underWay = []
  depth : ∀ {space scopes}, σ.symbols.spaces.get? space = some scopes → scopes.depth = 1
  rootExits : σ.symbols.rootExits = 0

theorem Session.AtRest.of_released {σ τ : Session} (h : σ.AtRest) (hreleased : σ.Released τ) :
    τ.AtRest where
  underWay := hreleased.underWay.trans h.underWay
  depth {space scopes'} hspace := by
    cases hbefore : σ.symbols.spaces.get? space with
    | none => exact hreleased.symbols.fresh hbefore hspace
    | some scopes =>
        rcases hreleased.symbols.kept hbefore with ⟨_, hafter, hdepth, _⟩
        rw [hspace] at hafter
        cases hafter
        exact hdepth.trans (h.depth hbefore)
  rootExits := hreleased.symbols.rootExits.trans h.rootExits

theorem Builtin.bindAll_released (t : SymbolTable) (space : String) :
    t.Released (Builtin.bindAll t space) := by
  unfold Builtin.bindAll
  induction Builtin.functions generalizing t with
  | nil => exact .refl t
  | cons f fs ih => exact (SymbolTable.Released.bind t space f.name _).trans (ih _)

theorem Session.start_atRest (settings : Settings) : (Session.start settings).AtRest := by
  have hempty : (⟨.empty, .empty, [], []⟩ : Session).AtRest :=
    ⟨rfl, fun h => absurd h (by simp [SymbolTable.empty]), rfl⟩
  exact hempty.of_released ⟨Builtin.bindAll_released _ _, rfl⟩

theorem Session.after_underWay (settings : Settings) (packages : Resolver)
    (files : List Source.File) : (Session.after settings packages files).underWay = [] :=
  Session.after_induction (P := fun σ => σ.underWay = []) rfl fun file _ σ hσ =>
    (Session.Released.runFile settings (Session.load_releases settings packages _) file
      σ).underWay.trans hσ

/-- A check releases what it enters, whichever way it ends. -/
def CheckM.Releases {α : Type} (env : Env) (x : CheckM α) : Prop :=
  ∀ s : State, s.Released (x env s).2

/--
Whatever state a check starts from and whichever way it ends, it has released what it entered;
and so every session comes to rest, whether or not the checks of its files have succeeded.
-/
theorem Checker.releases_on_every_path (settings : Settings) (packages : Resolver) :
    (∀ (depth : Nat) (path space : String),
      let env : Env := ⟨settings, path, space, Session.load settings packages depth⟩
      (∀ s : Source.Stmt, (stmt s).Releases env) ∧
      (∀ e : Source.Expr, (expr e).Releases env) ∧
      (∀ b : Source.Block, (blockOf b).Releases env) ∧
      (∀ (callee : Source.Expr) (args : List Source.Arg) (span : Span),
        (CheckM.call callee (expr callee) (arguments args) span).Releases env) ∧
      (∀ (name : Ident) (sig : NamedFunction) (body : Source.Block) (span : Span),
        (CheckM.functionDecl name (pure sig) (blockOf body) span).Releases env) ∧
      (∀ (d : Source.ClassDecl) (sig : ClassTy) (span : Span),
        (classWith d (pure sig) span).Releases env) ∧
      (∀ i : Source.Import, (CheckM.importModule i).Releases env)) ∧
    ∀ files : List Source.File, (Session.after settings packages files).AtRest := by
  refine ⟨fun depth path space => ?_, fun files => ?_⟩
  · intro env
    let F := Frame.release env (Session.load_releases settings packages depth)
    have admits : ∀ met, F.closure.Admits met := fun _ => Or.inl trivial
    exact ⟨fun s => F.closure.stmt s (admits _), fun e => F.closure.expr e (admits _),
      fun b => F.closure.blockOf b (admits _),
      fun callee args span => F.closure.call callee (F.closure.expr callee (admits _))
        (F.closure.arguments args (admits _)) span,
      fun name sig body span =>
        F.closure.functionDecl name (.pure sig) (F.closure.blockOf body (admits _)) span,
      fun d sig span => F.closure.classWith d (admits _) (.pure sig) span,
      fun i => F.importModule trivial i⟩
  · refine Session.after_induction (Session.start_atRest settings) fun file _ σ hσ => ?_
    exact hσ.of_released
      (Session.Released.runFile settings (Session.load_releases settings packages _) file σ)

end StaticTyping
