import StaticTyping.Proofs.Packages
import StaticTyping.Proofs.WellTyped

/-!
# What packages export

All files of a session share one symbol table, and a package is compiled in the middle of the file
that happens to import it first.  Still its exports depend on nothing but its own files and the
exports of the packages that these import.  To say so, `Session.Exports` describes them without a
session: as what the files come to where nothing has been checked before and all imports are known.
What a session has compiled is what `Session.Exports` says, and that is unique.
-/

namespace StaticTyping

open CheckM Source

def Loader.knowing (known : String → Option ModuleTy) : Loader := fun package σ =>
  match known package with
  | some m => (.ok m, σ)
  | none => (.error .cycle, σ)

namespace Session

/-- What a package exports: what its files come to on their own, if the packages they import are
known by their exports. -/
inductive Exports (settings : Settings) (packages : Resolver) : String → ModuleTy → Prop where
  | intro {package m files} (known : String → Option ModuleTy) :
      packages.filesAt (settings.pathOf package) = .ok files →
      (compileAll settings (.knowing known) files (.start settings)
        ((start settings).beginPackage package)).1.result = .ok m →
      (∀ q n, known q = some n → ∀ k, Library.standard? q = some k → n = k) →
      (∀ q n, known q = some n → Library.standard? q = none → Exports settings packages q n) →
      Exports settings packages package m

/-!
# Exports are unique
-/

structure SameTables (σ σ' : Session) : Prop where
  underWay : σ.underWay = σ'.underWay
  scopes : ∀ space, σ.symbols.scopesOf space = σ'.symbols.scopesOf space
  imports : ∀ file, σ.symbols.importsOf file = σ'.symbols.importsOf file

theorem SameTables.seenAlike (prelude space file : String) :
    SeenAlike SameTables prelude space file where
  seen hσ := ⟨hσ.scopes space, hσ.imports file⟩
  prelude hσ := hσ.scopes prelude
  change {σ σ' t t'} hσ ht ht' hagree := by
    constructor
    · exact hσ.underWay
    · intro other
      by_cases hother : other = space
      · exact hother ▸ hagree.scopes
      · show t.scopesOf other = t'.scopesOf other
        rw [ht.scopes hother, ht'.scopes hother, hσ.scopes]
    · intro other
      by_cases hother : other = file
      · exact hother ▸ hagree.imports
      · show t.importsOf other = t'.importsOf other
        rw [ht.imports hother, ht'.imports hother, hσ.imports]

variable {settings : Settings} {packages : Resolver}

theorem compileAll_knowing {known known' : String → Option ModuleTy}
    (h : ∀ q n, known q = some n → known' q = some n) {files : List Source.File} {c : Compilation}
    {σ : Session} {m : ModuleTy}
    (hm : (compileAll settings (.knowing known) files c σ).1.result = .ok m) :
    (compileAll settings (.knowing known') files c σ).1.result = .ok m := by
  have hall : (Likeness.exact True SameTables).Compilations
      (compileAll settings (.knowing known) files c σ)
      (compileAll settings (.knowing known') files c σ) := by
    apply Likeness.exact_compileAll (.all {})
    · intro τ τ' package _ hτ
      unfold Loader.knowing
      cases hknown : known package with
      | none => exact .free trivial
      | some n =>
          rw [h package n hknown]
          exact .ok rfl hτ
    · exact fun file _ => Condition.Vacuous.empty.ofStmts file.stmts
    · exact fun name hτ => spaceOf_congr (congrArg List.head? hτ.underWay) name
    · exact fun file _ _ _ _ _ _ => SameTables.seenAlike _ _ file.path
    · exact ⟨rfl, fun _ => rfl, fun _ => rfl⟩
  exact (hall.ok_of_ok hm).1

theorem Exports.unique {package : String} {m m' : ModuleTy}
    (h : Exports settings packages package m) (h' : Exports settings packages package m') :
    m = m' := by
  induction h generalizing m' with
  | @intro package m files known hfiles hm hstandard _ ih =>
      cases h' with
      | @intro _ _ files' known' hfiles' hm' hstandard' hexports' =>
          cases hfiles.symm.trans hfiles'
          -- Packages that both runs know are known alike.  So neither run goes another way if
          -- everything is known that one of them knows.
          have hagree : ∀ q n n', known q = some n → known' q = some n' → n = n' := by
            intro q n n' hq hq'
            cases hlib : Library.standard? q with
            | some k => rw [hstandard q n hq k hlib, hstandard' q n' hq' k hlib]
            | none => exact ih q n hq hlib (hexports' q n' hq' hlib)
          have hleft : ∀ q n, known q = some n → (known q).or (known' q) = some n := by
            intro q n hq
            rw [hq]
            rfl
          have hright : ∀ q n, known' q = some n → (known q).or (known' q) = some n := by
            intro q n hq
            cases hknown : known q with
            | none => exact hq
            | some k => exact congrArg some (hagree q k n hknown hq)
          have hboth := compileAll_knowing hleft hm
          rw [compileAll_knowing hright hm'] at hboth
          cases hboth
          rfl

/-!
# What a session in which everything succeeds keeps up
-/

/-- What has been compiled is what packages export, and nothing is known yet to the files of
packages that are still to be compiled. -/
structure Orderly (settings : Settings) (packages : Resolver) (σ : Session) : Prop where
  prelude : σ.symbols.scopesOf settings.preludeSpace =
    (start settings).symbols.scopesOf settings.preludeSpace
  compiled : ∀ {package m}, σ.compiled.get? package = some m → Exports settings packages package m
  scopes : ∀ {package space}, σ.compiled.get? package = none → package ∉ σ.underWay →
    Owns settings packages package space → σ.symbols.scopesOf space = .empty
  imports : ∀ {package file}, σ.compiled.get? package = none → package ∉ σ.underWay →
    OwnsFile settings packages package file → σ.symbols.importsOf file = .empty

abbrev TracksOrderly (settings : Settings) (packages : Resolver) (way : List String)
    (own files : String → Prop) (base σ σ' : Session) : Prop :=
  Orderly settings packages σ ∧ Tracks settings packages way own files base σ σ'

abbrev TracksPackage (settings : Settings) (packages : Resolver) (package : String)
    (base : Session) : Session → Session → Prop :=
  TracksOrderly settings packages (package :: base.underWay) (Owns settings packages package)
    (OwnsFile settings packages package) base

theorem Orderly.indifferent {way : List String} {own files : String → Prop}
    (H : Territory settings packages way own files) :
    Indifferent way own files fun σ _ => Orderly settings packages σ := by
  intro space file σ σ' t t' hspace hfile hway ht hσ
  constructor
  · exact (ht.scopes (H.prelude hspace).symm).trans hσ.prelude
  · exact hσ.compiled
  · intro package other hnew hother howns
    have hne : other ≠ space := by
      rintro rfl
      exact hother (hway ▸ H.spaces hspace package howns)
    exact (ht.scopes hne).trans (hσ.scopes hnew hother howns)
  · intro package other hnew hother howns
    have hne : other ≠ file := by
      rintro rfl
      exact hother (hway ▸ H.imports hfile package howns)
    exact (ht.imports hne).trans (hσ.imports hnew hother howns)

theorem TracksOrderly.finish {σ τ τ' : Session} {package : String} {m : ModuleTy}
    (hσ : Orderly settings packages σ) (hway : package ∉ σ.underWay)
    (hτ : TracksPackage settings packages package σ τ τ')
    (hm : Exports settings packages package m) :
    Orderly settings packages
        { τ.endPackage with compiled := τ.endPackage.compiled.insert package m } ∧
      Advances settings packages σ
        { τ.endPackage with compiled := τ.endPackage.compiled.insert package m } := by
  rcases hτ with ⟨horderly, hτ⟩
  have hended : τ.underWay.tail = σ.underWay := by rw [hτ.underWay]; rfl
  -- What is neither compiled nor under way now was not either while the package was.
  have hother : ∀ {other}, (τ.compiled.insert package m).get? other = none →
      other ∉ τ.underWay.tail → τ.compiled.get? other = none ∧ other ∉ τ.underWay := by
    intro other hnone hnot
    rw [Dict.get?_insert] at hnone
    split at hnone
    · cases hnone
    next hne =>
      constructor
      · exact hnone
      · rw [hτ.underWay]
        rw [hended] at hnot
        intro hmem
        rcases List.mem_cons.mp hmem with heq | hmem
        · exact hne heq
        · exact hnot hmem
  constructor
  · constructor
    · exact horderly.prelude
    · intro other n hn
      change (τ.compiled.insert package m).get? other = some n at hn
      rw [Dict.get?_insert] at hn
      split at hn
      next heq =>
        cases hn
        exact heq ▸ hm
      next => exact horderly.compiled hn
    · intro other space hnone hnot
      exact horderly.scopes (hother hnone hnot).1 (hother hnone hnot).2
    · intro other file hnone hnot
      exact horderly.imports (hother hnone hnot).1 (hother hnone hnot).2
  · constructor
    · exact hended
    · exact horderly.prelude.trans hσ.prelude.symm
    · intro space howned
      exact hτ.keptScopes (fun hspace => hway (howned package hspace)) howned
    · intro file howned
      exact hτ.keptImports (fun hfile => hway (howned package hfile)) howned

open Classical in
noncomputable def exported (settings : Settings) (packages : Resolver) (package : String) :
    Option ModuleTy :=
  match Library.standard? package with
  | some m => some m
  | none =>
      if h : ∃ m, Exports settings packages package m then some h.choose else none

theorem exported_of_standard {package : String} {m : ModuleTy}
    (h : Library.standard? package = some m) : exported settings packages package = some m := by
  unfold exported
  rw [h]

theorem exported_of_exports {package : String} {m : ModuleTy}
    (h : Library.standard? package = none) (hm : Exports settings packages package m) :
    exported settings packages package = some m := by
  have hexists : ∃ m, Exports settings packages package m := ⟨m, hm⟩
  unfold exported
  rw [h]
  dsimp only
  rw [dif_pos hexists]
  exact congrArg some (hexists.choose_spec.unique hm)

theorem exports_of_exported {package : String} {m : ModuleTy}
    (h : Library.standard? package = none) (hm : exported settings packages package = some m) :
    Exports settings packages package m := by
  unfold exported at hm
  rw [h] at hm
  dsimp only at hm
  split at hm
  next hexists =>
    cases hm
    exact hexists.choose_spec
  next => cases hm

def Faithful (settings : Settings) (packages : Resolver) (load : Loader) : Prop :=
  ∀ package σ m τ, Orderly settings packages σ → load package σ = (.ok m, τ) →
    Orderly settings packages τ ∧ Advances settings packages σ τ ∧
      exported settings packages package = some m

section Faithful

variable {way : List String} {own files : String → Prop} {base : Session} {load : Loader}

theorem Faithful.loads (hload : Faithful settings packages load)
    (H : Territory settings packages way own files)
    (hway : ∀ package ∈ base.underWay, package ∈ way) {σ σ' : Session} (package : String)
    (hσ : TracksOrderly settings packages way own files base σ σ') :
    (Likeness.exact True (TracksOrderly settings packages way own files base)).Loads
      (load package σ) (Loader.knowing (exported settings packages) package σ') := by
  rcases hrun : load package σ with ⟨r, τ⟩
  cases r with
  | error e => exact .free trivial
  | ok m =>
      rcases hload _ _ _ _ hσ.1 hrun with ⟨hτ, hadvances, hexported⟩
      unfold Loader.knowing
      rw [hexported]
      exact .ok rfl ⟨hτ, hσ.2.advance H hway hadvances⟩

end Faithful

section Layout

variable {entries : List Source.File} (H : Layout settings packages entries)
include H

theorem Layout.orderly_start : Orderly settings packages (start settings) where
  prelude := rfl
  compiled h := by cases h
  scopes _ _ howns := start_scopes (H.not_prelude howns)
  imports _ _ _ := start_imports _

theorem Layout.tracks {σ : Session} (hσ : Orderly settings packages σ) {package : String}
    (hnew : σ.compiled.get? package = none) (hway : package ∉ σ.underWay) (path : String) :
    TracksPackage settings packages package σ ((σ.request path).beginPackage package)
      ((start settings).beginPackage package) := by
  constructor
  · exact ⟨hσ.prelude, hσ.compiled,
      fun hnone hother => hσ.scopes hnone fun hmem => hother (List.mem_cons_of_mem _ hmem),
      fun hnone hother => hσ.imports hnone fun hmem => hother (List.mem_cons_of_mem _ hmem)⟩
  · constructor
    · rfl
    · rfl
    · exact hσ.prelude
    · exact fun hspace =>
        (hσ.scopes hnew hway hspace).trans (start_scopes (H.not_prelude hspace)).symm
    · exact fun hfile => (hσ.imports hnew hway hfile).trans (start_imports _).symm
    · exact fun _ _ => rfl
    · exact fun _ _ => rfl

theorem Faithful.compile {load : Loader} (hload : Faithful settings packages load) {σ τ : Session}
    (hσ : Orderly settings packages σ) {package : String} {files : List Source.File} {m : ModuleTy}
    (hnew : σ.compiled.get? package = none) (hway : package ∉ σ.underWay)
    (hfiles : packages.filesAt (settings.pathOf package) = .ok files)
    (hrun : Session.compile settings load package files (σ.request (settings.pathOf package)) =
      (.ok m, τ)) :
    Orderly settings packages τ ∧ Advances settings packages σ τ ∧
      Exports settings packages package m := by
  have hterritory : Territory settings packages (package :: σ.underWay)
      (Owns settings packages package) (OwnsFile settings packages package) :=
    H.territory List.mem_cons_self
  -- the same files compiled on their own, where imports are answered by what packages export
  have hall : (Likeness.exact True (TracksPackage settings packages package σ)).Compilations
      (compileAll settings load files (.start settings)
        ((σ.request (settings.pathOf package)).beginPackage package))
      (compileAll settings (.knowing (exported settings packages)) files (.start settings)
        ((start settings).beginPackage package)) := by
    apply Likeness.exact_compileAll (.all {})
    · exact fun package _ =>
        hload.loads hterritory (fun _ hmem => List.mem_cons_of_mem _ hmem) package
    · exact fun file _ => Condition.Vacuous.empty.ofStmts file.stmts
    · exact fun name hτ => hτ.2.spaceOf_eq name
    · intro file hfile τ τ' name hτ hname
      apply Tracks.seenAlike hterritory (Orderly.indifferent hterritory)
      · refine ⟨files, hfiles, file, hfile, name, hname, ?_⟩
        unfold Checker.spaceOf
        rw [hτ.2.underWay]
      · exact ⟨files, hfiles, file, hfile, rfl⟩
    · exact H.tracks hσ hnew hway _
  unfold Session.compile at hrun
  dsimp only at hrun
  split at hrun
  next m' hresult =>
    cases hrun
    rcases hall.ok_of_ok hresult with ⟨hresult', hτ⟩
    have hm : Exports settings packages package m := by
      apply Exports.intro _ hfiles hresult'
      · intro q n hq k hk
        rw [exported_of_standard hk] at hq
        cases hq
        rfl
      · exact fun q n hq hnone => exports_of_exported hnone hq
    rcases TracksOrderly.finish hσ hway hτ hm with ⟨horderly, hadvances⟩
    exact ⟨horderly, hadvances, hm⟩
  next => cases hrun

theorem Layout.load_faithful (depth : Nat) :
    Faithful settings packages (load settings packages depth) := by
  intro package σ
  apply load_stepwise (P := fun _ package σ r => ∀ m τ, Orderly settings packages σ →
    r = (.ok m, τ) → Orderly settings packages τ ∧ Advances settings packages σ τ ∧
      exported settings packages package = some m)
  intro depth package σ r ih hstep m τ hσ hrun
  cases hstep with
  | standard h =>
      cases hrun
      exact ⟨hσ, .refl σ, exported_of_standard h⟩
  | known h hknown =>
      cases hrun
      exact ⟨hσ, .refl σ, exported_of_exports h (hσ.compiled hknown)⟩
  | underWay | unavailable | tooDeep => cases hrun
  | @compiled nested _ h =>
      have hload : Faithful settings packages (load settings packages nested) := ih nested rfl
      rcases hload.compile H hσ h.unknown h.idle h.files hrun with ⟨hτ, hadvances, hm⟩
      exact ⟨hτ, hadvances, exported_of_exports h.standard hm⟩

theorem Layout.check_orderly {file : Source.File} (hfile : file ∈ entries) {σ τ : Session}
    (hσ : Orderly settings packages σ) (hway : σ.underWay = []) {f : Typed.File}
    (hrun : check settings packages file σ = (.ok f, τ)) :
    Orderly settings packages τ ∧ τ.underWay = [] := by
  have hterritory : Territory settings packages []
      (fun space => Checker.moduleName? file.stmts = some space) (fun path => path = file.path) :=
    ⟨fun hname => (H.entryNames file hfile _ hname).2,
      fun hname _ howns => (H.entry_not_owned hfile hname howns).elim,
      fun hpath _ howns => (H.entry_file_not_owned hfile (hpath ▸ howns)).elim⟩
  have hfiles : (Likeness.exact True (TracksOrderly settings packages []
      (fun space => Checker.moduleName? file.stmts = some space)
      (fun path => path = file.path) σ)).Files
      (check settings packages file σ)
      (Checker.runFile settings (.knowing (exported settings packages)) file σ) := by
    apply Likeness.exact_runFile (.all {})
    · exact fun package _ =>
        (H.load_faithful packages.depth).loads hterritory (fun _ hmem => hway ▸ hmem) package
    · exact Condition.Vacuous.empty.ofStmts file.stmts
    · exact ⟨hσ, hway, congrArg List.head? hway, rfl, fun _ => rfl, fun _ => rfl,
        fun _ _ => rfl, fun _ _ => rfl⟩
    · exact fun _ => rfl
    · intro name hname
      have hspace : Checker.spaceOf σ name = name := by
        unfold Checker.spaceOf
        rw [hway]
      exact Tracks.seenAlike hterritory (Orderly.indifferent hterritory) (hspace.symm ▸ hname) rfl
  rw [hrun] at hfiles
  revert hfiles
  generalize Checker.runFile settings (.knowing (exported settings packages)) file σ = r'
  intro hfiles
  cases hfiles with
  | ok _ hτ => exact ⟨hτ.1, hτ.2.underWay⟩

end Layout

/-- Whether the checks of files, one after another, all succeed. -/
def allSucceed (settings : Settings) (packages : Resolver) : List Source.File → Session → Bool
  | [], _ => true
  | file :: files, σ =>
      let done := check settings packages file σ
      done.1.isOk && allSucceed settings packages files done.2

theorem Layout.after_orderly {entries : List Source.File}
    (H : Layout settings packages entries)
    (hok : allSucceed settings packages entries (start settings)) :
    Orderly settings packages (after settings packages entries) := by
  suffices h : ∀ files : List Source.File, (∀ file ∈ files, file ∈ entries) → ∀ σ : Session,
      Orderly settings packages σ → σ.underWay = [] → allSucceed settings packages files σ →
      Orderly settings packages
        (files.foldl (fun σ file => (check settings packages file σ).2) σ) from
    h entries (fun _ hfile => hfile) _ H.orderly_start rfl hok
  intro files
  induction files with
  | nil => exact fun _ σ hσ _ _ => hσ
  | cons file files ih =>
      intro hmem σ hσ hway hok
      rcases hrun : check settings packages file σ with ⟨r, τ⟩
      rw [allSucceed, hrun] at hok
      rw [List.foldl_cons, hrun]
      cases r with
      | error errors => cases hok
      | ok f =>
          rcases H.check_orderly (hmem file List.mem_cons_self) hσ hway hrun with ⟨hτ, hway'⟩
          exact ih (fun other hother => hmem other (List.mem_cons_of_mem _ hother)) τ hτ hway' hok

/--
What a package exports does not depend on who imports it: two sessions in which everything succeeds
agree on every package that both have compiled, whatever files they started with.
-/
theorem compiled_unique (settings : Settings) (packages : Resolver)
    (files files' : List Source.File) (H : Layout settings packages files)
    (H' : Layout settings packages files') (hok : allSucceed settings packages files (start settings))
    (hok' : allSucceed settings packages files' (start settings)) (package : String)
    (m m' : ModuleTy) (hm : (after settings packages files).compiled.get? package = some m)
    (hm' : (after settings packages files').compiled.get? package = some m') : m = m' :=
  ((H.after_orderly hok).compiled hm).unique ((H'.after_orderly hok').compiled hm')

end Session

namespace Sample

def ledger : Source.File :=
  file "ledger" [stmt (.importOne (ident "sums") none),
    stmt (.function ⟨ident "total", .isPublic, [], some .int⟩
      (block [stmt (.ret (some (expr (.call (get (var "sums") "sum") [] default))))]))]

def accounts : PackageIndex :=
  ⟨sums.entries.insert "src/ledger" (.files [ledger])⟩

def audit : List Source.File :=
  [file "audit" [stmt (.importOne (ident "ledger") none)]]

def budget : List Source.File :=
  [file "sheet" [stmt (.importOne (ident "sums") (some (ident "s"))),
      stmt (.function ⟨ident "sum", .isPublic, [], none⟩ (block []))],
    file "budget" [stmt (.importOne (ident "ledger") none)]]

theorem filesAt_accounts {package : String} {files : List Source.File}
    (h : accounts.filesAt (Settings.pathOf {} package) = .ok files) :
    (package = "ledger" ∨ package = "sums") ∧ ∃ ss, files = [file package ss] := by
  have hentry : (Settings.pathOf {} package, PackageEntry.files files) ∈
      accounts.entries.entries := PackageIndex.mem_of_filesAt h
  have hpackage : ∀ name, Settings.pathOf {} package = "src/" ++ name → package = name :=
    fun name hname => String.append_right_inj "src/" |>.mp hname
  rcases List.mem_cons.mp hentry with hledger | hentry
  · injection hledger with hpath hfiles
    injection hfiles with hfiles
    cases hpackage "ledger" hpath
    exact ⟨.inl rfl, _, hfiles⟩
  · injection List.mem_singleton.mp hentry with hpath hfiles
    injection hfiles with hfiles
    cases hpackage "sums" hpath
    exact ⟨.inr rfl, _, hfiles⟩

theorem layout_accounts {entries : List Source.File}
    (h : ∀ file ∈ entries, file.path ≠ "ledger.aura" ∧ file.path ≠ "sums.aura" ∧
      ∀ name, Checker.moduleName? file.stmts = some name →
        ':' ∉ name.toList ∧ name ≠ "prelude") : Session.Layout {} accounts entries where
  entryNames entry hentry := (h entry hentry).2.2
  packageNames package files hfiles file hfile name hname := by
    rcases filesAt_accounts hfiles with ⟨hpackage, ss, rfl⟩
    cases List.mem_singleton.mp hfile
    cases hname
    rcases hpackage with rfl | rfl
    · decide
    · decide
  entryPaths entry hentry package files hfiles file hfile := by
    rcases filesAt_accounts hfiles with ⟨hpackage, ss, rfl⟩
    cases List.mem_singleton.mp hfile
    rcases hpackage with rfl | rfl
    · exact (h entry hentry).1.symm
    · exact (h entry hentry).2.1.symm
  packagePaths package files hfiles package' files' hfiles' file hfile file' hfile' hpath := by
    rcases filesAt_accounts hfiles with ⟨_, ss, rfl⟩
    rcases filesAt_accounts hfiles' with ⟨_, ss', rfl⟩
    cases List.mem_singleton.mp hfile
    cases List.mem_singleton.mp hfile'
    exact String.append_left_inj ".aura" |>.mp hpath

theorem layout_audit : Session.Layout {} accounts audit := by
  apply layout_accounts
  intro file hfile
  cases List.mem_singleton.mp hfile
  exact ⟨by decide, by decide, fun name hname => by cases hname; decide⟩

theorem layout_budget : Session.Layout {} accounts budget := by
  apply layout_accounts
  intro file hfile
  rcases List.mem_cons.mp hfile with rfl | hfile
  · exact ⟨by decide, by decide, fun name hname => by cases hname; decide⟩
  · cases List.mem_singleton.mp hfile
    exact ⟨by decide, by decide, fun name hname => by cases hname; decide⟩

end Sample

theorem Session.compiled_unique_sums :
    ∃ m m', (after {} Sample.accounts Sample.audit).compiled.get? "sums" = some m ∧
      (after {} Sample.accounts Sample.budget).compiled.get? "sums" = some m' ∧ m = m' :=
  ⟨_, _, rfl, rfl, compiled_unique {} Sample.accounts Sample.audit Sample.budget
    Sample.layout_audit Sample.layout_budget rfl rfl "sums" _ _ rfl rfl⟩

end StaticTyping
