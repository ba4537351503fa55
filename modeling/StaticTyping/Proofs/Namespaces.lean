import StaticTyping.Proofs.Frame
import StaticTyping.Proofs.Loading

/-!
# Whose namespaces a check changes

The check of a file binds names in the namespace of its module.  It reaches other namespaces only
through imports, and a package has namespaces of its own, marked with its name.
-/

namespace StaticTyping

open CheckM

def Session.Shares (σ : Session) (space : String) : Prop :=
  ∃ package name, package ∉ σ.underWay ∧ space = package ++ "::" ++ name

/-- The only namespaces that have changed are some given ones and those of packages. -/
structure Session.ChangesOnly (own : String → Prop) (σ τ : Session) : Prop where
  underWay : τ.underWay = σ.underWay
  kept : ∀ {space}, ¬own space → ¬σ.Shares space →
    τ.symbols.spaces.get? space = σ.symbols.spaces.get? space

theorem Session.shares_congr {σ τ : Session} (h : τ.underWay = σ.underWay) :
    τ.Shares = σ.Shares := by
  unfold Session.Shares
  rw [h]

namespace Session.ChangesOnly

variable {own : String → Prop} {σ τ υ : Session}

theorem refl (σ : Session) : σ.ChangesOnly own σ :=
  ⟨rfl, fun _ _ => rfl⟩

theorem trans (h : σ.ChangesOnly own τ) (h' : τ.ChangesOnly own υ) : σ.ChangesOnly own υ where
  underWay := h'.underWay.trans h.underWay
  kept {space} hown hshares := by
    rw [← Session.shares_congr h.underWay] at hshares
    exact (h'.kept hown hshares).trans (h.kept hown (Session.shares_congr h.underWay ▸ hshares))

theorem mono {own' : String → Prop} (h : σ.ChangesOnly own τ)
    (himp : ∀ space, own space → own' space) : σ.ChangesOnly own' τ :=
  ⟨h.underWay, fun hown hshares => h.kept (fun hspace => hown (himp _ hspace)) hshares⟩

theorem of_spaces_eq (hway : τ.underWay = σ.underWay)
    (hspaces : τ.symbols.spaces = σ.symbols.spaces) : σ.ChangesOnly own τ :=
  ⟨hway, fun _ _ => by rw [hspaces]⟩

end Session.ChangesOnly

theorem SymbolTable.get?_setScopes_of_ne (t : SymbolTable) {space other : String} (s : Scopes)
    (h : other ≠ space) : (t.setScopes space s).spaces.get? other = t.spaces.get? other :=
  Dict.get?_insert_of_ne _ _ h

theorem SymbolTable.get?_leave_of_ne (t : SymbolTable) {space other : String} (h : other ≠ space) :
    (t.leave space).spaces.get? other = t.spaces.get? other := by
  unfold leave
  split
  · rfl
  · exact t.get?_setScopes_of_ne _ h
  · rfl

theorem SymbolTable.imports_leave (t : SymbolTable) (space : String) :
    (t.leave space).imports = t.imports := by
  unfold leave
  split <;> rfl

theorem SymbolTable.importsOf_leave (t : SymbolTable) (space file : String) :
    (t.leave space).importsOf file = t.importsOf file := by
  unfold importsOf
  rw [t.imports_leave]

def Loader.StaysApart (load : Loader) : Prop :=
  ∀ (package : String) (σ : Session), σ.ChangesOnly (fun _ => False) (load package σ).2

def Frame.ownSpace (env : Env) (hload : env.load.StaysApart) : Frame env {} where
  rel s t := s.session.ChangesOnly (· = env.space) t.session
  imports := True
  one _ := .inl trivial
  many _ := .inl trivial
  refl s := .refl s.session
  trans := .trans
  declare _ _ s := ⟨rfl, fun hown _ => s.session.symbols.get?_setScopes_of_ne _ hown⟩
  standard {_ package localName} _ s := by
    rcases importStandard_cases package localName env s with h | ⟨m, _, h⟩
    · rw [h]
      exact .refl s.session
    · rw [h]
      exact .of_spaces_eq rfl rfl
  importModule _ i s := by
    have h := (hload i.package.name s.session).mono fun space (hspace : False) =>
      (hspace.elim : space = env.space)
    exact CheckM.session_importModule (P := s.session.ChangesOnly _) h
      fun _ _ _ h => h.trans (.of_spaces_eq rfl rfl)
  inScope {s t} h := ⟨h.underWay, fun hown hshares =>
    ((t.session.symbols.get?_leave_of_ne hown).trans (h.kept hown hshares)).trans
      (s.session.symbols.get?_setScopes_of_ne _ hown)⟩
  inStmt h := h
  inExpr h := h
  inClass h := h
  report _ _ s := .refl s.session

section

variable (settings : Settings) {load : Loader}

theorem Session.ChangesOnly.runFile (hload : load.StaysApart) (file : Source.File) (σ : Session) :
    σ.ChangesOnly (fun space => ∃ name, space = Checker.spaceOf σ name)
      (Checker.runFile settings load file σ).2 := by
  refine Frame.runFile .refl .trans fun {name env} henv => ?_
  rcases Option.map_eq_some_iff.mp henv with ⟨_, _, hpair⟩
  cases hpair
  exact ⟨Frame.ownSpace _ hload, trivial, fun h => h.mono fun _ hspace => ⟨name, hspace⟩⟩

theorem Session.ChangesOnly.compileAll (hload : load.StaysApart) {package : String}
    {outer : List String} (files : List Source.File) (c : Compilation) {σ : Session}
    (hway : σ.underWay = package :: outer) :
    σ.ChangesOnly (fun space => ∃ name, space = package ++ "::" ++ name)
      (Session.compileAll settings load files c σ).2 := by
  induction files generalizing c σ with
  | nil => exact .refl σ
  | cons file files ih =>
      have hfile := runFile settings hload file σ
      simp only [Checker.spaceOf, hway] at hfile
      exact hfile.trans (ih _ (hfile.underWay.trans hway))

theorem Session.ChangesOnly.compile (hload : load.StaysApart) {package : String}
    (files : List Source.File) {σ : Session} (hnew : package ∉ σ.underWay) :
    σ.ChangesOnly (fun _ => False) (Session.compile settings load package files σ).2 := by
  have h := compileAll settings hload files (.start settings)
    (σ := σ.beginPackage package) rfl
  have hended : σ.ChangesOnly (fun _ => False) (Session.compileAll settings load files
      (.start settings) (σ.beginPackage package)).2.endPackage := by
    refine ⟨congrArg List.tail h.underWay, fun {space} _ hshares => h.kept ?_ ?_⟩
    · rintro ⟨name, rfl⟩
      exact hshares ⟨package, name, hnew, rfl⟩
    · rintro ⟨other, name, hother, rfl⟩
      exact hshares ⟨other, name, fun hmem => hother (List.mem_cons_of_mem _ hmem), rfl⟩
  unfold Session.compile
  dsimp only
  split
  · exact ⟨hended.underWay, hended.kept⟩
  · exact hended

end

theorem Session.load_staysApart (settings : Settings) (packages : Resolver) (depth : Nat) :
    (Session.load settings packages depth).StaysApart := by
  refine Session.load_induction (P := fun _ σ r => σ.ChangesOnly (fun _ => False) r.2)
    (fun σ _ => .refl σ) (fun _ => .refl _) (fun _ σ => .refl σ)
    (fun _ _ => .of_spaces_eq rfl rfl) (fun {depth package files σ} ih hnew => ?_) depth
  have h := Session.ChangesOnly.compile settings ih files
    (σ := σ.request (settings.pathOf package)) hnew.idle
  exact ⟨h.underWay, h.kept⟩

end StaticTyping
