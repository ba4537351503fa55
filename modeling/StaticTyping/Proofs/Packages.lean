import StaticTyping.Proofs.Loading
import StaticTyping.Proofs.Pairing.Exact

/-!
# Packages in one session

All files of a session share one symbol table, and a package is compiled in the middle of the file
that happens to import it.  If names and paths keep packages apart, then a load touches nothing that
belongs to the packages under way, and what a file comes to can be told from its own tables.
-/

namespace StaticTyping

open CheckM Source

namespace Session

variable {settings : Settings} {packages : Resolver}

/-!
# Packages kept apart
-/

theorem spaceOf_congr {σ σ' : Session} (h : σ.underWay.head? = σ'.underWay.head?) (name : String) :
    Checker.spaceOf σ name = Checker.spaceOf σ' name := by
  unfold Checker.spaceOf
  revert h
  cases σ.underWay <;> cases σ'.underWay <;> simp

/-- Names that keep the packages of an index apart from each other and from the files that a
session starts with. -/
structure Layout (settings : Settings) (packages : Resolver) (entries : List Source.File) :
    Prop where
  entryNames : ∀ file ∈ entries, ∀ name, Checker.moduleName? file.stmts = some name →
    ':' ∉ name.toList ∧ name ≠ settings.preludeSpace
  packageNames : ∀ package files, packages.filesAt (settings.pathOf package) = .ok files →
    ∀ file ∈ files, ∀ name, Checker.moduleName? file.stmts = some name →
    ':' ∉ name.toList ∧ package ++ "::" ++ name ≠ settings.preludeSpace
  entryPaths : ∀ entry ∈ entries, ∀ package files,
    packages.filesAt (settings.pathOf package) = .ok files → ∀ file ∈ files,
    file.path ≠ entry.path
  packagePaths : ∀ package files, packages.filesAt (settings.pathOf package) = .ok files →
    ∀ package' files', packages.filesAt (settings.pathOf package') = .ok files' →
    ∀ file ∈ files, ∀ file' ∈ files', file.path = file'.path → package = package'

/-- A namespace of one of the modules of a package. -/
def Owns (settings : Settings) (packages : Resolver) (package space : String) : Prop :=
  ∃ files, packages.filesAt (settings.pathOf package) = .ok files ∧ ∃ file ∈ files, ∃ name,
    Checker.moduleName? file.stmts = some name ∧ space = package ++ "::" ++ name

/-- The path of one of the files of a package. -/
def OwnsFile (settings : Settings) (packages : Resolver) (package path : String) : Prop :=
  ∃ files, packages.filesAt (settings.pathOf package) = .ok files ∧ ∃ file ∈ files,
    file.path = path

theorem dropWhile_space {name : String} (h : ':' ∉ name.toList) (package : String) :
    ((package ++ "::" ++ name).toList.reverse.dropWhile (· != ':')) =
      ':' :: ':' :: package.toList.reverse := by
  have hname : ∀ c ∈ name.toList.reverse, (c != ':') = true := by
    intro c hc
    apply bne_iff_ne.mpr
    rintro rfl
    exact h (List.mem_reverse.mp hc)
  rw [String.toList_append, String.toList_append, List.reverse_append,
    List.dropWhile_append_of_pos hname, List.reverse_append]
  rfl

theorem package_eq_of_space_eq {package package' name name' : String} (h : ':' ∉ name.toList)
    (h' : ':' ∉ name'.toList) (hspace : package ++ "::" ++ name = package' ++ "::" ++ name') :
    package = package' := by
  have hread := dropWhile_space h package
  rw [hspace, dropWhile_space h' package'] at hread
  injection hread with _ hread
  injection hread with _ hread
  exact String.toList_inj.mp (List.reverse_injective hread.symm)

namespace Layout

variable {entries : List Source.File} (H : Layout settings packages entries)
include H

theorem owner_unique {package package' space : String} (h : Owns settings packages package space)
    (h' : Owns settings packages package' space) : package = package' := by
  rcases h with ⟨files, hfiles, file, hfile, name, hname, rfl⟩
  rcases h' with ⟨files', hfiles', file', hfile', name', hname', hspace⟩
  exact package_eq_of_space_eq (H.packageNames _ _ hfiles _ hfile _ hname).1
    (H.packageNames _ _ hfiles' _ hfile' _ hname').1 hspace

theorem fileOwner_unique {package package' path : String}
    (h : OwnsFile settings packages package path)
    (h' : OwnsFile settings packages package' path) : package = package' := by
  rcases h with ⟨files, hfiles, file, hfile, rfl⟩
  rcases h' with ⟨files', hfiles', file', hfile', hpath⟩
  exact H.packagePaths _ _ hfiles _ _ hfiles' _ hfile _ hfile' hpath.symm

theorem not_prelude {package space : String} (h : Owns settings packages package space) :
    space ≠ settings.preludeSpace := by
  rcases h with ⟨files, hfiles, file, hfile, name, hname, rfl⟩
  exact (H.packageNames _ _ hfiles _ hfile _ hname).2

theorem entry_not_owned {entry : Source.File} (hentry : entry ∈ entries) {name package : String}
    (hname : Checker.moduleName? entry.stmts = some name) : ¬Owns settings packages package name := by
  intro h
  rcases h with ⟨_, _, _, _, _, _, rfl⟩
  apply (H.entryNames _ hentry _ hname).1
  simp

theorem entry_file_not_owned {entry : Source.File} (hentry : entry ∈ entries) {package : String} :
    ¬OwnsFile settings packages package entry.path := by
  intro h
  rcases h with ⟨files, hfiles, file, hfile, hpath⟩
  exact H.entryPaths _ hentry _ _ hfiles _ hfile hpath

end Layout

/-!
# What loads and files leave alone
-/

structure Advances (settings : Settings) (packages : Resolver) (σ τ : Session) : Prop where
  underWay : τ.underWay = σ.underWay
  prelude : τ.symbols.scopesOf settings.preludeSpace = σ.symbols.scopesOf settings.preludeSpace
  scopes : ∀ {space}, (∀ package, Owns settings packages package space → package ∈ σ.underWay) →
    τ.symbols.scopesOf space = σ.symbols.scopesOf space
  imports : ∀ {file}, (∀ package, OwnsFile settings packages package file → package ∈ σ.underWay) →
    τ.symbols.importsOf file = σ.symbols.importsOf file

theorem Advances.refl (σ : Session) : Advances settings packages σ σ :=
  ⟨rfl, rfl, fun _ => rfl, fun _ => rfl⟩

structure Territory (settings : Settings) (packages : Resolver) (way : List String)
    (own files : String → Prop) : Prop where
  prelude : ∀ {space}, own space → space ≠ settings.preludeSpace
  spaces : ∀ {space}, own space → ∀ package, Owns settings packages package space → package ∈ way
  imports : ∀ {file}, files file → ∀ package, OwnsFile settings packages package file →
    package ∈ way

structure Tracks (settings : Settings) (packages : Resolver) (way : List String)
    (own files : String → Prop) (base σ σ' : Session) : Prop where
  underWay : σ.underWay = way
  innermost : σ'.underWay.head? = way.head?
  prelude : σ.symbols.scopesOf settings.preludeSpace = σ'.symbols.scopesOf settings.preludeSpace
  scopes : ∀ {space}, own space → σ.symbols.scopesOf space = σ'.symbols.scopesOf space
  imports : ∀ {file}, files file → σ.symbols.importsOf file = σ'.symbols.importsOf file
  keptScopes : ∀ {space}, ¬own space →
    (∀ package, Owns settings packages package space → package ∈ base.underWay) →
    σ.symbols.scopesOf space = base.symbols.scopesOf space
  keptImports : ∀ {file}, ¬files file →
    (∀ package, OwnsFile settings packages package file → package ∈ base.underWay) →
    σ.symbols.importsOf file = base.symbols.importsOf file

def Indifferent (way : List String) (own files : String → Prop) (R : Session → Session → Prop) :
    Prop :=
  ∀ (space file : String) (σ σ' : Session) (t t' : SymbolTable), own space → files file →
    σ.underWay = way → σ.symbols.ChangedAt space file t → R σ σ' →
    R { σ with symbols := t } { σ' with symbols := t' }

section Tracks

variable {way : List String} {own files : String → Prop} {base : Session}
  {R : Session → Session → Prop}

theorem Tracks.spaceOf_eq {σ σ' : Session} (h : Tracks settings packages way own files base σ σ')
    (name : String) : Checker.spaceOf σ name = Checker.spaceOf σ' name := by
  apply spaceOf_congr
  rw [h.underWay, h.innermost]

theorem Tracks.seenAlike (H : Territory settings packages way own files)
    (hR : Indifferent way own files R) {space file : String} (hspace : own space)
    (hfile : files file) :
    SeenAlike (fun σ σ' => R σ σ' ∧ Tracks settings packages way own files base σ σ')
      settings.preludeSpace space file where
  seen hσ := ⟨hσ.2.scopes hspace, hσ.2.imports hfile⟩
  prelude hσ := hσ.2.prelude
  change {σ σ' t t'} hσ ht ht' hagree := by
    rcases hσ with ⟨hrel, hσ⟩
    refine ⟨hR _ _ _ _ _ _ hspace hfile hσ.underWay ht hrel, ?_⟩
    constructor
    · exact hσ.underWay
    · exact hσ.innermost
    · show t.scopesOf _ = t'.scopesOf _
      rw [ht.scopes (H.prelude hspace).symm, ht'.scopes (H.prelude hspace).symm, hσ.prelude]
    · intro other hother
      -- the check changes its own namespace alike on both sides, and no other one
      by_cases hsame : other = space
      · exact hsame ▸ hagree.scopes
      · show t.scopesOf other = t'.scopesOf other
        rw [ht.scopes hsame, ht'.scopes hsame, hσ.scopes hother]
    · intro other hother
      by_cases hsame : other = file
      · exact hsame ▸ hagree.imports
      · show t.importsOf other = t'.importsOf other
        rw [ht.imports hsame, ht'.imports hsame, hσ.imports hother]
    · intro other hother howned
      have hne : other ≠ space := fun hsame => hother (hsame ▸ hspace)
      exact (ht.scopes hne).trans (hσ.keptScopes hother howned)
    · intro other hother howned
      have hne : other ≠ file := fun hsame => hother (hsame ▸ hfile)
      exact (ht.imports hne).trans (hσ.keptImports hother howned)

theorem Tracks.advance (H : Territory settings packages way own files)
    (hway : ∀ package ∈ base.underWay, package ∈ way) {σ σ' τ : Session}
    (hσ : Tracks settings packages way own files base σ σ')
    (hτ : Advances settings packages σ τ) : Tracks settings packages way own files base τ σ' where
  underWay := hτ.underWay.trans hσ.underWay
  innermost := hσ.innermost
  prelude := hτ.prelude.trans hσ.prelude
  scopes hspace := (hτ.scopes (hσ.underWay ▸ H.spaces hspace)).trans (hσ.scopes hspace)
  imports hfile := (hτ.imports (hσ.underWay ▸ H.imports hfile)).trans (hσ.imports hfile)
  keptScopes hspace howned := (hτ.scopes fun package hpackage =>
    hσ.underWay ▸ hway package (howned package hpackage)).trans (hσ.keptScopes hspace howned)
  keptImports hfile howned := (hτ.imports fun package hpackage =>
    hσ.underWay ▸ hway package (howned package hpackage)).trans (hσ.keptImports hfile howned)

end Tracks

theorem Layout.territory {entries : List Source.File} (H : Layout settings packages entries)
    {package : String} {way : List String} (hway : package ∈ way) :
    Territory settings packages way (Owns settings packages package)
      (OwnsFile settings packages package) where
  prelude := H.not_prelude
  spaces hspace _ howns := H.owner_unique hspace howns ▸ hway
  imports hfile _ howns := H.fileOwner_unique hfile howns ▸ hway

/-!
# Sessions in which nothing has been checked
-/

theorem scopesOf_bindAll_of_ne {space other : String} (h : other ≠ space) (t : SymbolTable) :
    (Builtin.bindAll t space).scopesOf other = t.scopesOf other := by
  have hall : ∀ (fs : List NamedFunction) (t : SymbolTable),
      (fs.foldl (fun t f => t.bind space f.name (.named f)) t).scopesOf other =
        t.scopesOf other := by
    intro fs
    induction fs with
    | nil => exact fun t => rfl
    | cons f fs ih => exact fun t => (ih _).trans (t.scopesOf_setScopes_of_ne _ h)
  exact hall Builtin.functions t

theorem importsOf_bindAll (space file : String) (t : SymbolTable) :
    (Builtin.bindAll t space).importsOf file = t.importsOf file := by
  have hall : ∀ (fs : List NamedFunction) (t : SymbolTable),
      (fs.foldl (fun t f => t.bind space f.name (.named f)) t).importsOf file =
        t.importsOf file := by
    intro fs
    induction fs with
    | nil => exact fun t => rfl
    | cons f fs ih => exact fun t => ih _
  exact hall Builtin.functions t

theorem start_scopes {space : String} (h : space ≠ settings.preludeSpace) :
    (start settings).symbols.scopesOf space = .empty :=
  scopesOf_bindAll_of_ne h .empty

theorem start_imports (file : String) : (start settings).symbols.importsOf file = .empty :=
  importsOf_bindAll _ _ _

end Session
end StaticTyping
