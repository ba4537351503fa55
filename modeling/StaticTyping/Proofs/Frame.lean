import StaticTyping.Proofs.Closure

/-!
# What checks do to the state

A check changes the state in few ways: it binds names, makes standard packages visible, imports,
and goes into scopes and constructs and out of them again.  A frame is a relation between the
states before and after that all of these respect.  Every check of a tree then respects it too,
whichever way it ends.
-/

namespace StaticTyping

open CheckM

/-- A standard package made visible to a file, if its local name is free. -/
def SymbolTable.addStandard (t : SymbolTable) (file package localName : String) : SymbolTable :=
  match t.imported? file localName, Library.standard? package with
  | none, some m => t.addModule file localName m
  | _, _ => t

theorem SymbolTable.spaces_addStandard (t : SymbolTable) (file package localName : String) :
    (t.addStandard file package localName).spaces = t.spaces := by
  unfold addStandard
  split <;> rfl

theorem CheckM.importStandard_apply (package localName : String) (env : Env) (s : State) :
    importStandard package localName env s =
      (.ok (), onSymbols (·.addStandard env.file package localName) s) := by
  show (match env.imported? s.session.symbols localName, Library.standard? package with
    | none, some m => addModule localName m
    | _, _ => pure ()) env s = _
  unfold Env.imported? onSymbols
  dsimp only [SymbolTable.addStandard]
  cases s.session.symbols.imported? env.file localName with
  | some scope => rfl
  | none => cases Library.standard? package <;> rfl

theorem CheckM.importStandard_cases (package localName : String) (env : Env) (s : State) :
    importStandard package localName env s = (.ok (), s) ∨
      ∃ m, Library.standard? package = some m ∧ importStandard package localName env s =
        (.ok (), onSymbols (·.addModule env.file localName m) s) := by
  rw [importStandard_apply]
  dsimp only [onSymbols, SymbolTable.addStandard]
  cases s.session.symbols.imported? env.file localName with
  | some scope => exact .inl rfl
  | none =>
      cases hm : Library.standard? package with
      | some m => exact .inr ⟨m, rfl, rfl⟩
      | none => exact .inl rfl

theorem CheckM.session_importModule {P : Session → Prop} {i : Source.Import} {env : Env} {s : State}
    (hload : P (env.load i.package.name s.session).2)
    (hadd : ∀ m τ, env.load i.package.name s.session = (.ok m, τ) → P τ →
      P { τ with symbols := τ.symbols.addModule env.file i.space m }) :
    P (importModule i env s).2.session := by
  show P (CheckM.bind (loadPackage i.package.name i.span.line) _ env s).2.session
  unfold CheckM.bind loadPackage
  rcases hrun : env.load i.package.name s.session with ⟨r, τ⟩
  rw [hrun] at hload
  cases r with
  | ok m => exact hadd m τ hrun hload
  | error e => cases e <;> exact hload

/--
A relation of the states before and after that the steps of all checks respect.  Imports need not
respect it, nor what is reported; then it is a frame for trees only whose condition excludes them,
or lets none stand but imports that do.
-/
structure Frame (env : Env) (c : Source.Condition) where
  rel : State → State → Prop
  imports : Prop
  one : ∀ {package alias?}, c.stmt (.importOne package alias?) →
    imports ∨ ∀ span s, rel s (CheckM.importModule ⟨package, alias?, span⟩ env s).2
  many : ∀ {packages}, c.stmt (.importMany packages) →
    imports ∨ ∀ i ∈ packages, ∀ s, rel s (CheckM.importModule i env s).2
  refl : ∀ s, rel s s
  trans : ∀ {s t u}, rel s t → rel t u → rel s u
  declare : ∀ name ty s, rel s (CheckM.declare name ty env s).2
  standard : ∀ {ty : Ty} {package localName}, ty.builtinPackage? = some (package, localName) →
    ∀ s, rel s (importStandard package localName env s).2
  importModule : imports → ∀ i s, rel s (CheckM.importModule i env s).2
  inScope : ∀ {s t}, rel (onSymbols (·.enter env.space) s) t →
    rel s (onSymbols (·.leave env.space) t)
  inStmt : ∀ {construct s t}, rel { s with stmts := s.stmts.push construct } t →
    rel s { t with stmts := t.stmts.pop }
  inExpr : ∀ {construct s t}, rel { s with exprs := s.exprs.push construct } t →
    rel s { t with exprs := t.exprs.pop }
  inClass : ∀ {construct s t}, rel { s with classes := s.classes.push construct } t →
    rel s { t with classes := t.classes.pop }
  report : imports → ∀ d s, rel s { s with report := s.report.push d }

namespace Frame

variable {env : Env} {c : Source.Condition} (F : Frame env c) {α β : Type}

def Reports : Prop :=
  ∀ d s, F.rel s { s with report := s.report.push d }

variable {F} in
theorem rel_attempt (hreport : F.Reports) {x : CheckM α} (hx : ∀ s, F.rel s (x env s).2)
    (s : State) : F.rel s (CheckM.attempt x env s).2 := by
  have h := hx s
  unfold CheckM.attempt
  rcases hrun : x env s with ⟨r, t⟩
  rw [hrun] at h
  cases r with
  | ok a => exact h
  | error e => exact F.trans h (hreport _ t)

def closure : Closure c where
  Has x := ∀ s, F.rel s (x env s).2
  imports := F.imports
  one := F.one
  many := F.many
  ofPure _ := F.refl
  ofFail _ _ := F.refl
  ofView _ _ := F.refl
  ofBind {_ _ x f} hx hf s := by
    have hfirst := hx s
    rcases h : x env s with ⟨r, t⟩
    rw [h] at hfirst
    cases r with
    | ok a =>
        rw [bind_apply_of_ok h]
        exact F.trans hfirst (hf a t)
    | error e =>
        rw [bind_apply_of_error h]
        exact hfirst
  ofMapCause {_ x} f hx s := by
    have h := hx s
    unfold CheckM.mapCause
    rcases hrun : x env s with ⟨r, t⟩
    rw [hrun] at h
    cases r <;> exact h
  declare := F.declare
  standard := F.standard
  importModule := F.importModule
  ofInScope hx _ := F.inScope (hx _)
  ofInStmt _ hx _ := F.inStmt (hx _)
  ofInExpr _ hx _ := F.inExpr (hx _)
  ofInClass _ hx _ := F.inClass (hx _)
  attempts h := rel_attempt (F.report h)

abbrev Keeps (x : CheckM α) : Prop :=
  F.closure.Has x

theorem attempts (hreport : F.Reports) : F.closure.Attempts :=
  rel_attempt hreport

end Frame

theorem Checker.pass_session {α : Type} (x : CheckM α) (env : Env) (s : State) :
    (pass x env s).2.session = (x.attempt env s).2.session := by
  unfold pass
  split
  next h =>
    rw [h]
    split <;> rfl
  next h =>
    rw [h]
    rfl

theorem Frame.session_pass {env : Env} {c : Source.Condition} {F : Frame env c}
    (hreport : F.Reports) {P : Session → Prop}
    (hrel : ∀ {s t}, F.rel s t → P s.session → P t.session) {α : Type} {x : CheckM α}
    (hx : F.Keeps x) {s : State} (hs : P s.session) : P (Checker.pass x env s).2.session := by
  rw [Checker.pass_session]
  exact hrel (rel_attempt hreport hx s) hs

def Checker.conclude (path name : String) :
    Except Batch (List Typed.Stmt) × State → Except Batch Typed.File × Session
  | (.error errors, s) => (.error errors, s.session)
  | (.ok stmts, s) => (.ok ⟨path, name, stmts⟩, s.session)

theorem Checker.conclude_session (path name : String) (r : Except Batch (List Typed.Stmt) × State) :
    (conclude path name r).2 = r.2.session := by
  rcases r with ⟨r, s⟩
  cases r <;> rfl

theorem Checker.runFile_session {settings : Settings} {load : Loader} {file : Source.File}
    {σ : Session} {P : Session → Prop} (hσ : P σ)
    (hpasses : ∀ {name env}, envOf settings load σ file = some (name, env) →
      P (pass (outline file.stmts) env (initial settings σ)).2.session ∧
      ∀ {items s}, pass (outline file.stmts) env (initial settings σ) = (.ok items, s) →
        P s.session → P (pass (finish items) env s).2.session) :
    P (runFile settings load file σ).2 := by
  unfold runFile
  split
  · exact hσ
  next name env henv =>
    rcases hpasses henv with ⟨houtline, hfinish⟩
    split
    next s hs =>
      rw [hs] at houtline
      exact houtline
    next items s hs =>
      rw [hs] at houtline
      have hfinished := hfinish hs houtline
      split
      next s' hs' =>
        rw [hs'] at hfinished
        exact hfinished
      next s' hs' =>
        rw [hs'] at hfinished
        exact hfinished

theorem Frame.runFile {settings : Settings} {load : Loader} {file : Source.File} {σ : Session}
    {R : Session → Session → Prop} (refl : ∀ σ, R σ σ)
    (trans : ∀ {σ τ υ}, R σ τ → R τ υ → R σ υ)
    (hframe : ∀ {name env}, Checker.envOf settings load σ file = some (name, env) →
      ∃ F : Frame env {}, F.imports ∧ ∀ {s t}, F.rel s t → R s.session t.session) :
    R σ (Checker.runFile settings load file σ).2 := by
  apply Checker.runFile_session (P := R σ) (refl σ)
  intro name env henv
  rcases hframe henv with ⟨F, himports, hrel⟩
  have hkept : ∀ {s t : State}, F.rel s t → R σ s.session → R σ t.session :=
    fun h hs => trans hs (hrel h)
  constructor
  · exact F.session_pass (F.report himports) hkept (F.closure.outline himports file.stmts) (refl σ)
  · intro items s _ hs
    exact F.session_pass (F.report himports) hkept (F.closure.finish himports items) hs

end StaticTyping
