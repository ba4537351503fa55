import StaticTyping.Proofs.Packages
import StaticTyping.Proofs.WellTyped

/-!
# The builtin functions

The builtin functions are bound in a namespace like any other, whose name is a setting.  A file
binds names in the namespace of its module, and loads reach the namespaces of packages.  So the
builtin functions stay what they are in every session in which no module has their namespace.  One
that has it makes its names visible everywhere, and in place of those of builtin functions.
-/

namespace StaticTyping

open CheckM

/-!
# A namespace that is left alone
-/

structure Session.Spares (space : String) (σ τ : Session) : Prop where
  underWay : τ.underWay = σ.underWay
  kept : τ.symbols.spaces.get? space = σ.symbols.spaces.get? space

namespace Session.Spares

variable {space : String} {σ τ υ : Session}

theorem refl (σ : Session) : σ.Spares space σ :=
  ⟨rfl, rfl⟩

theorem trans (h : σ.Spares space τ) (h' : τ.Spares space υ) : σ.Spares space υ :=
  ⟨h'.underWay.trans h.underWay, h'.kept.trans h.kept⟩

end Session.Spares

def Frame.sparing {space : String} (env : Env) (hspace : space ≠ env.space) (way : List String)
    (hload : ∀ package (σ : Session), σ.underWay = way → σ.Spares space (env.load package σ).2) :
    Frame env {} where
  rel s t := s.session.underWay = way → s.session.Spares space t.session
  imports := True
  one _ := .inl trivial
  many _ := .inl trivial
  refl s _ := .refl s.session
  trans h h' hway := (h hway).trans (h' ((h hway).underWay.trans hway))
  declare _ _ s _ := ⟨rfl, s.session.symbols.get?_setScopes_of_ne _ hspace⟩
  standard {_ package localName} _ s _ := by
    rw [importStandard_apply]
    exact ⟨rfl, congrArg (·.get? space) (SymbolTable.spaces_addStandard _ _ _ _)⟩
  importModule _ i s hway := CheckM.session_importModule (P := s.session.Spares space)
    (hload i.package.name s.session hway) fun _ _ _ h => ⟨h.underWay, h.kept⟩
  inScope {s t} h hway := by
    constructor
    · exact (h hway).underWay
    · exact ((t.session.symbols.get?_leave_of_ne hspace).trans (h hway).kept).trans
        (s.session.symbols.get?_setScopes_of_ne _ hspace)
  inStmt h := h
  inExpr h := h
  inClass h := h
  report _ _ s _ := .refl s.session

namespace Session

section

variable (settings : Settings) {load : Loader} {space : String} {way : List String}
  (hload : ∀ package σ, σ.underWay = way → Spares space σ (load package σ).2)
include hload

theorem Spares.runFile {file : Source.File} {σ : Session} (hway : σ.underWay = way)
    (hfile : ∀ name, Checker.moduleName? file.stmts = some name →
      space ≠ Checker.spaceOf σ name) :
    σ.Spares space (Checker.runFile settings load file σ).2 := by
  have hrun : σ.underWay = way → σ.Spares space (Checker.runFile settings load file σ).2 := by
    apply Frame.runFile (R := fun σ τ => σ.underWay = way → σ.Spares space τ)
    · exact fun σ _ => .refl σ
    · exact fun h h' hway => (h hway).trans (h' ((h hway).underWay.trans hway))
    · intro name env henv
      rcases Option.map_eq_some_iff.mp henv with ⟨_, hname, hpair⟩
      cases hpair
      exact ⟨Frame.sparing _ (hfile name hname) way hload, trivial, id⟩
  exact hrun hway

theorem Spares.compileAll {package : String} {outer : List String}
    (hpackage : way = package :: outer)
    {files : List Source.File}
    (hfiles : ∀ file ∈ files, ∀ name, Checker.moduleName? file.stmts = some name →
      space ≠ package ++ "::" ++ name)
    (c : Compilation) {σ : Session} (hway : σ.underWay = way) :
    σ.Spares space (Session.compileAll settings load files c σ).2 := by
  induction files generalizing c σ with
  | nil => exact .refl σ
  | cons file files ih =>
      rcases List.forall_mem_cons.mp hfiles with ⟨hfirst, hrest⟩
      have hspace : ∀ name, Checker.moduleName? file.stmts = some name →
          space ≠ Checker.spaceOf σ name := by
        simpa [Checker.spaceOf, hway, hpackage] using hfirst
      have hfile := Spares.runFile settings hload hway hspace
      exact hfile.trans (ih hrest _ (hfile.underWay.trans hway))

theorem Spares.compile {package : String} {files : List Source.File}
    (hfiles : ∀ file ∈ files, ∀ name, Checker.moduleName? file.stmts = some name →
      space ≠ package ++ "::" ++ name)
    {σ : Session} (hway : package :: σ.underWay = way) :
    σ.Spares space (Session.compile settings load package files σ).2 := by
  have hall := Spares.compileAll settings hload hway.symm hfiles (.start settings)
    (σ := σ.beginPackage package) hway
  unfold Session.compile
  dsimp only
  split
  · exact ⟨congrArg List.tail hall.underWay, hall.kept⟩
  · exact ⟨congrArg List.tail hall.underWay, hall.kept⟩

end

variable {settings : Settings} {packages : Resolver} {space : String}

theorem load_spares (depth : Nat) (package : String) {σ : Session}
    (hway : ∀ owner, Owns settings packages owner space → owner ∈ σ.underWay) :
    σ.Spares space (load settings packages depth package σ).2 := by
  revert hway
  apply load_induction (P := fun _ σ r =>
    (∀ owner, Owns settings packages owner space → owner ∈ σ.underWay) → Spares space σ r.2)
  · exact fun σ _ _ => .refl σ
  · exact fun _ _ => .refl _
  · exact fun _ σ _ => .refl σ
  · exact fun _ _ _ => ⟨rfl, rfl⟩
  · intro depth package files σ ih hnew hway
    -- the package is not under way yet, so the namespace is not one of its own
    have hfiles : ∀ file ∈ files, ∀ name, Checker.moduleName? file.stmts = some name →
        space ≠ package ++ "::" ++ name := by
      intro file hfile name hname hspace
      exact hnew.idle (hway package ⟨files, hnew.files, file, hfile, name, hname, hspace⟩)
    have hload : ∀ package' (τ : Session), τ.underWay = package :: σ.underWay →
        Spares space τ (load settings packages depth package' τ).2 := by
      intro package' τ hτ
      apply ih
      intro owner howner
      rw [hτ]
      exact List.mem_cons_of_mem _ (hway owner howner)
    have hcompile : (σ.request (settings.pathOf package)).Spares space _ :=
      Spares.compile settings hload hfiles rfl
    exact ⟨hcompile.underWay, hcompile.kept⟩

theorem after_spares {files : List Source.File}
    (hfiles : ∀ file ∈ files, Checker.moduleName? file.stmts ≠ some space)
    (hpackages : ∀ package, ¬Owns settings packages package space) :
    (start settings).Spares space (after settings packages files) := by
  apply after_induction (P := Spares space (start settings)) (.refl _)
  intro file hfile σ hσ
  have hway : σ.underWay = [] := hσ.underWay
  have hload : ∀ package (τ : Session), τ.underWay = [] →
      Spares space τ (loader settings packages package τ).2 :=
    fun package τ _ => load_spares _ package fun owner howner => absurd howner (hpackages owner)
  apply hσ.trans
  apply Spares.runFile settings hload hway
  intro name hname hspace
  simp only [Checker.spaceOf, hway] at hspace
  exact hfiles file hfile (hspace ▸ hname)

end Session

/-!
# Lookups
-/

theorem SymbolTable.lookup?_bind_of_ne (t : SymbolTable) (space : String) {name other : String}
    (ty : Ty) (h : other ≠ name) :
    (t.bind space name ty).lookup? space other = t.lookup? space other := by
  unfold bind setScopes scopesOf lookup?
  rw [Dict.get?_insert_self]
  show Scopes.lookup? _ other = _
  rw [Scopes.lookup?_bind_of_ne _ ty h]
  cases t.spaces.get? space <;> rfl

theorem SymbolTable.lookup?_foldl_bind (space name : String) (fs : List NamedFunction)
    (t : SymbolTable) :
    (fs.foldl (fun t f => t.bind space f.name (.named f)) t).lookup? space name =
      ((fs.reverse.find? (·.name == name)).map Ty.named).or (t.lookup? space name) := by
  induction fs generalizing t with
  | nil => rfl
  | cons f fs ih =>
      rw [List.foldl_cons, ih, List.reverse_cons, List.find?_append]
      by_cases h : f.name = name
      · subst h
        rw [lookup?_bind_self]
        cases fs.reverse.find? (·.name == f.name) <;> simp
      · rw [t.lookup?_bind_of_ne space _ (Ne.symm h)]
        cases fs.reverse.find? (·.name == name) <;> simp [h]

theorem Builtin.lookup?_start (settings : Settings) (name : String) :
    (Session.start settings).symbols.lookup? settings.preludeSpace name =
      (Builtin.functions.reverse.find? (·.name == name)).map Ty.named := by
  show (Builtin.functions.foldl _ SymbolTable.empty).lookup? _ name = _
  rw [SymbolTable.lookup?_foldl_bind]
  exact Option.or_none

theorem Builtin.find?_functions {f : NamedFunction} (h : f ∈ Builtin.functions) :
    Builtin.functions.reverse.find? (·.name == f.name) = some f := by
  simp only [Builtin.functions, List.mem_cons, List.not_mem_nil, or_false] at h
  rcases h with rfl | rfl | rfl | rfl | rfl | rfl <;> rfl

namespace Session

/-!
# The theorem
-/

/--
The builtin functions stay what they are.  If neither a file that is checked nor one of a package
has their namespace, then after any number of checks it binds what it did at the start: from every
module the name of a builtin function leads to that function, and no other name is visible
everywhere.
-/
theorem prelude_fixed {settings : Settings} {packages : Resolver} {files : List Source.File}
    (hfiles : ∀ file ∈ files, Checker.moduleName? file.stmts ≠ some settings.preludeSpace)
    (hpackages : ∀ package, ¬Owns settings packages package settings.preludeSpace) :
    (after settings packages files).symbols.spaces.get? settings.preludeSpace =
      (start settings).symbols.spaces.get? settings.preludeSpace ∧
    (∀ f ∈ Builtin.functions, ∀ env : Env, env.settings = settings →
      env.find? (after settings packages files).symbols f.name = some (.named f)) ∧
    ∀ name ty,
      (after settings packages files).symbols.lookup? settings.preludeSpace name = some ty →
        ∃ f ∈ Builtin.functions, f.name = name ∧ ty = .named f := by
  have hkept := (after_spares hfiles hpackages).kept
  have hlookup : ∀ name,
      (after settings packages files).symbols.lookup? settings.preludeSpace name =
        (Builtin.functions.reverse.find? (·.name == name)).map Ty.named := by
    intro name
    rw [← Builtin.lookup?_start]
    unfold SymbolTable.lookup?
    rw [hkept]
  refine ⟨hkept, ?_, ?_⟩
  · intro f hf env henv
    unfold Env.find?
    rw [henv, hlookup, Builtin.find?_functions hf]
    rfl
  · intro name ty hty
    rw [hlookup] at hty
    rcases Option.map_eq_some_iff.mp hty with ⟨f, hf, rfl⟩
    refine ⟨f, List.mem_reverse.mp (List.mem_of_find?_eq_some hf), ?_, rfl⟩
    simpa using List.find?_some hf

theorem not_owns_of_plain {settings : Settings} {packages : Resolver} {space : String}
    (h : ':' ∉ space.toList) (package : String) : ¬Owns settings packages package space := by
  intro howns
  rcases howns with ⟨_, _, _, _, name, _, rfl⟩
  apply h
  simp

end Session

namespace Sample

/-- The declarations of a variable and of a function that has the name of a builtin one. -/
def printing : List Source.Stmt :=
  [stmt (.binding ⟨ident "limit", false, none, some (expr (.int 1))⟩),
    returning "print" [⟨ident "n", .int, false, none⟩] (var "n")]

/-- A file that mentions a variable of another module, which it has not imported. -/
def limitFile : Source.File :=
  file "main" [stmt (.binding ⟨ident "half", false, none, some (var "limit")⟩)]

end Sample

namespace Session

/-- A module that declares a function with the name of a builtin one, and a file that imports a
package. -/
theorem prelude_fixed_printing :
    (check {} Sample.sums (Sample.file "printing" Sample.printing) (start {})).1.isOk = true ∧
    ∀ f ∈ Builtin.functions, ∀ env : Env, env.settings = {} →
      env.find? (after {} Sample.sums
        [Sample.file "printing" Sample.printing, Sample.sumFile]).symbols f.name =
          some (.named f) := by
  have hfiles : ∀ file ∈ [Sample.file "printing" Sample.printing, Sample.sumFile],
      Checker.moduleName? file.stmts ≠ some ({} : Settings).preludeSpace := by
    decide
  have hpackages : ∀ package, ¬Owns {} Sample.sums package ({} : Settings).preludeSpace :=
    not_owns_of_plain (by decide)
  exact ⟨rfl, (prelude_fixed hfiles hpackages).2.1⟩

/--
The same declarations in a module of the name of the namespace.  Its variable becomes visible in
files that do not import it, and its function takes the place of the builtin one.  A package has the
namespace if that is so named.
-/
theorem prelude_overwritten :
    (check {} .empty Sample.limitFile (start {})).1.isOk = false ∧
    (check {} .empty Sample.limitFile
      (after {} .empty [Sample.file "prelude" Sample.printing])).1.isOk = true ∧
    ((after {} .empty [Sample.file "prelude" Sample.printing]).symbols.lookup? "prelude"
      "print").map Ty.text = some "fn print(Int) -> Int" ∧
    ((after { preludeSpace := "sums::sums" } Sample.sums [Sample.sumFile]).symbols.lookup?
      "sums::sums" "sum").isSome = true := by
  decide +kernel

end Session

end StaticTyping
