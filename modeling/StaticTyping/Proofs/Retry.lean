import StaticTyping.Proofs.Pairing.Exact
import StaticTyping.Proofs.Retry.File

/-!
# Imports that fail

A package that fails is not kept, but the names that its files have declared are, and the modules
that they have imported.  Where no file of the package can tell what it has left itself from what
it is about to leave, a second attempt fails as the first did; where one can, the second attempt
may succeed.

The files that are covered here are not all of the first kind.  It is left open what becomes of a
package with variables whose values name others, even if these are declared above them, and of one
whose imports still have to be compiled when it is met for the first time.
-/

namespace StaticTyping

open Checker

/-!
# What a file leaves
-/

namespace SymbolTable.ChangedAt

variable {t u v : SymbolTable} {space file : String}

theorem refl (t : SymbolTable) (space file : String) : t.ChangedAt space file t :=
  ⟨fun _ => rfl, fun _ => rfl⟩

theorem trans (h : t.ChangedAt space file u) (h' : u.ChangedAt space file v) :
    t.ChangedAt space file v :=
  ⟨fun hother => (h'.scopes hother).trans (h.scopes hother),
    fun hother => (h'.imports hother).trans (h.imports hother)⟩

theorem bindAll (t : SymbolTable) (space file : String) (bs : List (String × Ty)) :
    t.ChangedAt space file (t.bindAll space bs) := by
  induction bs generalizing t with
  | nil => exact .refl t space file
  | cons b bs ih => exact (setScopes t space file _).trans (ih _)

theorem addModules (t : SymbolTable) (space file : String) (ms : List (String × ModuleTy)) :
    t.ChangedAt space file (t.addModules file ms) := by
  induction ms generalizing t with
  | nil => exact .refl t space file
  | cons m ms ih => exact (addModule t space file m.1 m.2).trans (ih _)

theorem addStandards (t : SymbolTable) (space file : String) (ps : List (String × String)) :
    t.ChangedAt space file (t.addStandards file ps) := by
  induction ps generalizing t with
  | nil => exact .refl t space file
  | cons p ps ih => exact (addStandard t space file p.1 p.2).trans (ih _)

end SymbolTable.ChangedAt

theorem Session.leaving_changedAt (space file : String) (ms : List (String × ModuleTy))
    (bs : List (String × Ty)) (ps : List (String × String)) (σ : Session) :
    σ.symbols.ChangedAt space file (σ.leaving space file ms bs ps).symbols :=
  ((SymbolTable.ChangedAt.addModules σ.symbols space file ms).trans
    (.bindAll _ space file bs)).trans (.addStandards _ space file ps)

/-!
# Sessions that a file cannot tell apart
-/

structure Session.Beside (base σ : Session) : Prop where
  compiled : σ.compiled = base.compiled
  underWay : σ.underWay = base.underWay

namespace Session.Beside

variable {base σ : Session} (h : base.Beside σ)
include h

theorem spaceOf (name : String) : Checker.spaceOf σ name = Checker.spaceOf base name := by
  unfold Checker.spaceOf
  rw [h.underWay]

theorem idle {load : Loader} {package : String} (hidle : load.Idle base package) :
    load.Idle σ package := by
  rcases hidle with ⟨r, rs, hfailed, hload⟩
  exact ⟨r, rs, hfailed, fun υ hcompiled hway =>
    hload υ (hcompiled.trans h.compiled) (hway.trans h.underWay)⟩

end Session.Beside

structure Session.Twins (settings : Settings) (base : Session) (file : Source.File)
    (σ σ' : Session) : Prop where
  left : base.Beside σ
  right : base.Beside σ'
  prelude : σ.symbols.scopesOf settings.preludeSpace = σ'.symbols.scopesOf settings.preludeSpace
  tables : ∀ name ∈ moduleName? file.stmts,
    σ.symbols.Agree (spaceOf base name) file.path σ'.symbols

namespace Session.Twins

variable {settings : Settings} {base : Session} {file : Source.File} {σ σ' σ'' : Session}

theorem refl (h : base.Beside σ) : Twins settings base file σ σ :=
  ⟨h, h, rfl, fun _ _ => ⟨rfl, rfl⟩⟩

theorem trans (h : Twins settings base file σ σ') (h' : Twins settings base file σ' σ'') :
    Twins settings base file σ σ'' :=
  ⟨h.left, h'.right, h.prelude.trans h'.prelude, fun name hname =>
    ⟨(h.tables name hname).scopes.trans (h'.tables name hname).scopes,
      (h.tables name hname).imports.trans (h'.tables name hname).imports⟩⟩

theorem seenAlike {name : String} (hname : name ∈ moduleName? file.stmts) :
    SeenAlike (Twins settings base file) settings.preludeSpace (spaceOf base name) file.path where
  seen h := h.tables name hname
  prelude h := h.prelude
  change {σ σ' t t'} h ht ht' hagree := by
    refine ⟨⟨h.left.compiled, h.left.underWay⟩, ⟨h.right.compiled, h.right.underWay⟩, ?_, ?_⟩
    · show t.scopesOf settings.preludeSpace = t'.scopesOf settings.preludeSpace
      by_cases hspace : settings.preludeSpace = spaceOf base name
      · rw [hspace]
        exact hagree.scopes
      · rw [ht.scopes hspace, ht'.scopes hspace, h.prelude]
    · intro other hother
      cases (Option.mem_unique hname hother : name = other)
      exact hagree

end Session.Twins

/-!
# Files that import listed packages
-/

def Source.imported (ss : List Source.Stmt) : List String :=
  (ss.flatMap Source.Stmt.imports).map (·.package.name)

def Source.Condition.importing (packages : List String) : Source.Condition where
  stmt
    | .importOne package _ => packages.contains package.name
    | .importMany imports => imports.all fun i => packages.contains i.package.name
    | _ => true

theorem Source.Condition.importing_imports (packages : List String) :
    (Source.Condition.importing packages).Imports (· ∈ packages) where
  one h := List.contains_iff_mem.mp h
  many h i hi := List.contains_iff_mem.mp (List.all_eq_true.mp h i hi)

theorem Discipline.closed_entails (D : Discipline) (hidden packages : List String) :
    Source.Condition.Entails True (D.closed hidden) (.importing packages) where
  expr _ _ := rfl
  stmt k h := by
    cases k with
    | importOne | importMany => exact (Bool.false_ne_true (h trivial)).elim
    | _ => rfl
  ty _ _ := rfl
  params _ _ := rfl
  name _ _ := rfl

theorem Checker.Repeatable.importing {D : Discipline} {ss : List Source.Stmt}
    (h : Repeatable D ss) :
    Source.Met (Source.Stmt.allMeet (.importing (Source.imported ss)) ss) := by
  refine Source.Stmt.allMeet_of_forall fun s hs => ?_
  have hlisted : ∀ i ∈ s.imports, (Source.imported ss).contains i.package.name := fun i hi =>
    List.contains_iff_mem.mpr (List.mem_map_of_mem (List.mem_flatMap.mpr ⟨s, hs, hi⟩))
  rcases h.closed s hs with himports | hclosed
  · rcases s with ⟨kind, span⟩
    cases kind with
    | importOne package alias? => exact hlisted _ List.mem_cons_self
    | importMany imports => exact List.all_eq_true.mpr hlisted
    | _ => cases himports
  · exact (D.closed_entails _ _).ofStmt s fun _ => hclosed

/-!
# Files that settle
-/

section Files

variable {settings : Settings} {load : Loader} {D : Discipline} {base : Session}
  {file : Source.File} {σ σ' τ : Session}

structure Checker.Ready (load : Loader) (D : Discipline) (base : Session) (file : Source.File) :
    Prop where
  again : Repeatable D file.stmts
  idle : ∀ stmt ∈ file.stmts, ∀ i ∈ stmt.imports, load.Idle base i.package.name

theorem Checker.Ready.idle_of_imported (hfile : Ready load D base file) {package : String}
    (hpackage : package ∈ Source.imported file.stmts) : load.Idle base package := by
  rcases List.mem_map.mp hpackage with ⟨i, hi, rfl⟩
  rcases List.mem_flatMap.mp hi with ⟨stmt, hstmt, hi⟩
  exact hfile.idle stmt hstmt i hi

theorem Session.Twins.loads {package : String} (hidle : load.Idle base package)
    (h : Twins settings base file σ σ') :
    (Likeness.exact False (Twins settings base file)).Loads (load package σ)
      (load package σ') := by
  rcases hidle with ⟨r, rs, hfailed, hload⟩
  rw [hload σ h.left.compiled h.left.underWay, hload σ' h.right.compiled h.right.underWay]
  have hafter : Twins settings base file { σ with requested := rs ++ σ.requested }
      { σ' with requested := rs ++ σ'.requested } :=
    ⟨⟨h.left.compiled, h.left.underWay⟩, ⟨h.right.compiled, h.right.underWay⟩, h.prelude, h.tables⟩
  cases r with
  | ok m => exact .ok rfl hafter
  | error e =>
      cases e with
      | cycle => exact .cycle hafter
      | unavailable reason => exact .unavailable hafter
      | failed errors => exact (hfailed errors rfl).elim

theorem Session.Twins.runFile (hfile : Ready load D base file)
    (h : Twins settings base file σ σ') :
    (Checker.runFile settings load file σ).1 = (Checker.runFile settings load file σ').1 ∧
      Twins settings base file (Checker.runFile settings load file σ).2
        (Checker.runFile settings load file σ').2 := by
  have hloads : ∀ {σ σ' : Session} package, package ∈ Source.imported file.stmts →
      Twins settings base file σ σ' →
      (Likeness.exact False (Twins settings base file)).Loads (load package σ)
        (load package σ') :=
    fun package hpackage h => h.loads (hfile.idle_of_imported hpackage)
  -- all that a file imports is answered alike, since no import compiles a package
  have hsame : (Likeness.exact False (Twins settings base file)).Files
      (Checker.runFile settings load file σ) (Checker.runFile settings load file σ') :=
    Likeness.exact_runFile (Source.Condition.importing_imports _) hloads hfile.again.importing h
      (fun name => (h.left.spaceOf name).trans (h.right.spaceOf name).symm)
      fun name hname => h.left.spaceOf name ▸ seenAlike hname
  generalize Checker.runFile settings load file σ = p at hsame ⊢
  generalize Checker.runFile settings load file σ' = p' at hsame ⊢
  cases hsame with
  | @ok f f' _ _ hf hσ =>
      have hf : f = f' := by
        rw [← f.strip_nothing, ← f'.strip_nothing]
        exact hf
      exact ⟨congrArg Except.ok hf, hσ⟩
  | error hr hσ => exact ⟨congrArg Except.error hr, hσ⟩
  | free hfree => exact hfree.elim

structure Session.LeftBy (base : Session) (file : Source.File) (σ τ : Session) : Prop where
  beside : base.Beside τ
  scopes : ∀ {space}, (∀ name ∈ moduleName? file.stmts, space ≠ spaceOf base name) →
    τ.symbols.scopesOf space = σ.symbols.scopesOf space
  imports : ∀ {path}, path ≠ file.path → τ.symbols.importsOf path = σ.symbols.importsOf path

theorem Checker.runFile_of_unnamed (settings : Settings) (load : Loader)
    (hname : moduleName? file.stmts = none) (σ : Session) :
    runFile settings load file σ = (.error (unnamed settings file), σ) := by
  unfold runFile envOf
  rw [hname]
  rfl

section

variable (hload : load.Sound D)
  (hkeeps : ∀ package (σ : Session), σ.symbols.KeepsImports (load package σ).2.symbols)
  (hfile : Ready load D base file) (hσ : σ.WellFormed D) (hbeside : base.Beside σ)
include hload hkeeps hfile hσ hbeside

theorem Checker.Ready.leftBy (settings : Settings) :
    base.LeftBy file σ (Checker.runFile settings load file σ).2 := by
  cases hname : moduleName? file.stmts with
  | none =>
      rw [runFile_of_unnamed settings load hname]
      exact ⟨hbeside, fun _ => rfl, fun _ => rfl⟩
  | some name =>
      obtain ⟨ms, bs, ps, rs, hsession, _⟩ := runFile_again hload hkeeps hfile.again hσ
        (fun stmt hstmt i hi => hbeside.idle (hfile.idle stmt hstmt i hi)) hname
      have hchanged := σ.leaving_changedAt (spaceOf σ name) file.path ms bs ps
      rw [hsession]
      refine ⟨⟨hbeside.compiled, hbeside.underWay⟩, fun hspace => hchanged.scopes ?_,
        hchanged.imports⟩
      rw [hbeside.spaceOf]
      exact hspace name hname

theorem Checker.Ready.runFile_again
    (h : Session.Twins settings base file (Checker.runFile settings load file σ).2 σ') :
    (Checker.runFile settings load file σ').1 = (Checker.runFile settings load file σ).1 := by
  cases hname : moduleName? file.stmts with
  | none => rw [runFile_of_unnamed settings load hname, runFile_of_unnamed settings load hname]
  | some name =>
      obtain ⟨ms, bs, ps, rs, hsession, hagain⟩ := Checker.runFile_again hload hkeeps hfile.again hσ
        (fun stmt hstmt i hi => hbeside.idle (hfile.idle stmt hstmt i hi)) hname
      rw [hsession] at h
      have htwins : Session.Twins settings base file
          (σ.leaving (spaceOf σ name) file.path ms bs ps) σ' :=
        ⟨⟨hbeside.compiled, hbeside.underWay⟩, h.right, h.prelude, h.tables⟩
      rw [← (htwins.runFile hfile).1, hagain]

end

/-!
# Packages
-/

def Source.File.Apart (f g : Source.File) : Prop :=
  f.path ≠ g.path ∧ ∀ name ∈ Checker.moduleName? f.stmts, name ∉ Checker.moduleName? g.stmts

instance (f g : Source.File) : Decidable (f.Apart g) :=
  inferInstanceAs (Decidable (f.path ≠ g.path ∧
    ∀ name ∈ Checker.moduleName? f.stmts, name ∉ Checker.moduleName? g.stmts))

theorem Source.File.Apart.symm {f g : Source.File} (h : f.Apart g) : g.Apart f :=
  ⟨h.1.symm, fun name hg hf => h.2 name hf hg⟩

theorem Checker.spaceOf_injective (σ : Session) {name name' : String}
    (h : spaceOf σ name = spaceOf σ name') : name = name' := by
  unfold spaceOf at h
  split at h
  · exact h
  · exact (String.append_right_inj _).mp h

theorem Session.LeftBy.twins {other : Source.File} (h : base.LeftBy file σ τ)
    (hbeside : base.Beside σ) (hapart : other.Apart file)
    (hprelude : ∀ name ∈ moduleName? file.stmts, settings.preludeSpace ≠ spaceOf base name) :
    Twins settings base other σ τ where
  left := hbeside
  right := h.beside
  prelude := (h.scopes hprelude).symm
  tables name hname := by
    constructor
    · refine (h.scopes fun name' hname' hsame => ?_).symm
      exact hapart.2 name hname (spaceOf_injective base hsame ▸ hname')
    · exact (h.imports hapart.1).symm

section

variable (hload : load.Sound D)
  (hkeeps : ∀ package (σ : Session), σ.symbols.KeepsImports (load package σ).2.symbols)
  {files : List Source.File} (hfiles : ∀ file ∈ files, Ready load D base file)
  (hprelude : ∀ file ∈ files, ∀ name ∈ moduleName? file.stmts,
    settings.preludeSpace ≠ spaceOf base name)
include hload hkeeps hfiles

theorem Session.compileAll_beside (d : Compilation) (hσ : σ.WellFormed D)
    (hbeside : base.Beside σ) : base.Beside (compileAll settings load files d σ).2 := by
  induction files generalizing d σ with
  | nil => exact hbeside
  | cons file files ih =>
      rcases List.forall_mem_cons.mp hfiles with ⟨hfile, hrest⟩
      have hmeets := Source.Stmt.allMeet_of_forall hfile.again.meets
      exact ih hrest _ (runFile_sound settings hload hmeets hσ).1
        (hfile.leftBy hload hkeeps hσ hbeside settings).beside

include hprelude

theorem Session.compileAll_twins {other : Source.File} (hapart : ∀ file ∈ files, other.Apart file)
    (d : Compilation) (hσ : σ.WellFormed D) (hbeside : base.Beside σ) :
    Twins settings base other σ (compileAll settings load files d σ).2 := by
  induction files generalizing d σ with
  | nil => exact .refl hbeside
  | cons file files ih =>
      rcases List.forall_mem_cons.mp hfiles with ⟨hfile, hrest⟩
      rcases List.forall_mem_cons.mp hapart with ⟨hother, hapart⟩
      rcases List.forall_mem_cons.mp hprelude with ⟨hspace, hprelude⟩
      have hmeets := Source.Stmt.allMeet_of_forall hfile.again.meets
      have hleft := hfile.leftBy hload hkeeps hσ hbeside settings
      exact (hleft.twins hbeside hother hspace).trans
        (ih hrest hprelude hapart _ (runFile_sound settings hload hmeets hσ).1 hleft.beside)

theorem Session.compileAll_again (hapart : files.Pairwise Source.File.Apart) (d : Compilation)
    (hσ : σ.WellFormed D) (hbeside : base.Beside σ) (hσ' : σ'.WellFormed D)
    (h : ∀ file ∈ files, Twins settings base file (compileAll settings load files d σ).2 σ') :
    (compileAll settings load files d σ').1 = (compileAll settings load files d σ).1 := by
  induction files generalizing d σ σ' with
  | nil => rfl
  | cons file files ih =>
      rcases List.forall_mem_cons.mp hfiles with ⟨hfile, hrest⟩
      rcases List.forall_mem_cons.mp hprelude with ⟨hspace, hprelude⟩
      rcases List.pairwise_cons.mp hapart with ⟨hfirst, hapart⟩
      rcases List.forall_mem_cons.mp h with ⟨hsame, hsames⟩
      have hmeets := Source.Stmt.allMeet_of_forall hfile.again.meets
      have hτ := (runFile_sound settings hload hmeets hσ).1
      have hτ' := (runFile_sound settings hload hmeets hσ').1
      have hleft := hfile.leftBy hload hkeeps hσ hbeside settings
      have hleft' := hfile.leftBy hload hkeeps hσ' hsame.right settings
      -- the files after it have not changed what the first one sees
      have hlater := compileAll_twins hload hkeeps hrest hprelude hfirst
        (d.add (runFile settings load file σ).1) hτ hleft.beside
      have hresult := hfile.runFile_again hload hkeeps hσ hbeside (hlater.trans hsame)
      show (compileAll settings load files (d.add (runFile settings load file σ').1)
        (runFile settings load file σ').2).1 = _
      rw [hresult]
      refine ih hrest hprelude hapart _ hτ hleft.beside hτ' fun g hg => ?_
      exact (hsames g hg).trans (hleft'.twins hsame.right (hfirst g hg).symm hspace)

end

end Files

namespace Session

variable {settings : Settings} {packages : Resolver} {package : String} {σ τ : Session}
  {files : List Source.File}

instance (settings : Settings) (packages : Resolver) (package : String) (σ : Session) :
    Decidable (∃ files, Uncompiled settings packages package σ files) :=
  match hfiles : packages.filesAt (settings.pathOf package) with
  | .error _ => isFalse fun ⟨_, h⟩ => nomatch hfiles.symm.trans h.files
  | .ok files =>
      decidable_of_iff ((Library.standard? package).isNone ∧ (σ.compiled.get? package).isNone ∧
          package ∉ σ.underWay)
        ⟨fun ⟨hstandard, hunknown, hidle⟩ => ⟨files, Option.isNone_iff_eq_none.mp hstandard,
            Option.isNone_iff_eq_none.mp hunknown, hidle, hfiles⟩,
          fun ⟨_, h⟩ => ⟨Option.isNone_iff_eq_none.mpr h.standard,
            Option.isNone_iff_eq_none.mpr h.unknown, h.idle⟩⟩

theorem load_idle (depth : Nat) (h : ¬∃ files, Uncompiled settings packages package σ files) :
    (load settings packages depth).Idle σ package := by
  cases hstandard : Library.standard? package with
  | some m => exact ⟨.ok m, [], fun _ => nofun, fun _ _ _ => load_of_standard depth hstandard⟩
  | none =>
      cases hknown : σ.compiled.get? package with
      | some m =>
          exact ⟨.ok m, [], fun _ => nofun, fun υ hcompiled _ =>
            load_of_known depth hstandard (hcompiled ▸ hknown)⟩
      | none =>
          by_cases hway : package ∈ σ.underWay
          · exact ⟨.error .cycle, [], fun _ => nofun, fun υ hcompiled hunderWay =>
              load_of_underWay depth hstandard (hcompiled ▸ hknown) (hunderWay ▸ hway)⟩
          · cases hfiles : packages.filesAt (settings.pathOf package) with
            | ok files => exact (h ⟨files, hstandard, hknown, hway, hfiles⟩).elim
            | error reason =>
                exact ⟨.error (.unavailable reason), [settings.pathOf package], fun _ => nofun,
                  fun υ hcompiled hunderWay => load_of_unavailable depth hstandard
                    (hcompiled ▸ hknown) (hunderWay ▸ hway) hfiles⟩

theorem compile_eq_failed {load : Loader} {errors : Batch} :
    compile settings load package files σ = (.error (.failed errors), τ) ↔
      (compileAll settings load files (.start settings) (σ.beginPackage package)).1.result =
        .error errors ∧
      (compileAll settings load files (.start settings) (σ.beginPackage package)).2.endPackage =
        τ := by
  unfold compile
  dsimp only
  split
  next m hresult =>
    rw [hresult]
    constructor
    · rintro ⟨⟩
    · rintro ⟨⟨⟩, _⟩
  next errors' hresult =>
    rw [hresult]
    constructor
    · rintro ⟨⟩
      exact ⟨rfl, rfl⟩
    · rintro ⟨⟨⟩, rfl⟩
      rfl

/-- Files of a package that can be compiled again after they have failed: each can be checked again,
no two share a path or a namespace, none declares builtin functions, and what they import needs no
compiling. -/
structure Recompilable (D : Discipline) (settings : Settings) (packages : Resolver)
    (package : String) (σ : Session) (files : List Source.File) : Prop where
  again : ∀ file ∈ files, Repeatable D file.stmts
  apart : files.Pairwise Source.File.Apart
  prelude : ∀ file ∈ files, ∀ name ∈ moduleName? file.stmts,
    settings.preludeSpace ≠ package ++ "::" ++ name
  imports : ∀ file ∈ files, ∀ stmt ∈ file.stmts, ∀ i ∈ stmt.imports,
    ¬∃ others, Uncompiled settings packages i.package.name (σ.beginPackage package) others

instance (D : Discipline) (settings : Settings) (packages : Resolver) (package : String)
    (σ : Session) (files : List Source.File) :
    Decidable (Recompilable D settings packages package σ files) :=
  decidable_of_iff ((∀ file ∈ files, Repeatable D file.stmts) ∧
      files.Pairwise Source.File.Apart ∧
      (∀ file ∈ files, ∀ name ∈ moduleName? file.stmts,
        settings.preludeSpace ≠ package ++ "::" ++ name) ∧
      ∀ file ∈ files, ∀ stmt ∈ file.stmts, ∀ i ∈ stmt.imports,
        ¬∃ others, Uncompiled settings packages i.package.name (σ.beginPackage package) others)
    ⟨fun ⟨hagain, hapart, hprelude, himports⟩ => ⟨hagain, hapart, hprelude, himports⟩,
      fun h => ⟨h.again, h.apart, h.prelude, h.imports⟩⟩

theorem Recompilable.ready {D : Discipline} (h : Recompilable D settings packages package σ files)
    (depth : Nat) : ∀ file ∈ files, Ready (load settings packages depth) D
      (σ.beginPackage package) file :=
  fun file hfile => ⟨h.again file hfile, fun stmt hstmt i hi =>
    load_idle depth (h.imports file hfile stmt hstmt i hi)⟩

theorem compile_again {D : Discipline} (depth : Nat) (hpackages : packages.Meets D.condition)
    (hσ : σ.WellFormed D) (hfiles : Recompilable D settings packages package σ files)
    {errors : Batch} (h : compile settings (load settings packages depth) package files σ =
      (.error (.failed errors), τ)) (path : String) :
    σ.Beside τ ∧ ∃ υ, compile settings (load settings packages depth) package files
      (τ.request path) = (.error (.failed errors), υ) := by
  have hload := load_sound settings hpackages depth
  have hkeeps := load_keepsImports settings packages depth
  have hready := hfiles.ready depth
  have hmeets : ∀ file ∈ files, file.meets D.condition := fun file hfile =>
    Source.Stmt.allMeet_of_forall (hfiles.again file hfile).meets
  have hτ : τ.WellFormed D := by
    have hsound := (compile_sound settings hload hmeets package hσ).1
    rwa [h] at hsound
  obtain ⟨hresult, rfl⟩ := compile_eq_failed.mp h
  have hbegun : (σ.beginPackage package).WellFormed D := ⟨hσ.symbols, hσ.compiled⟩
  have hbegun' : (((compileAll settings (load settings packages depth) files (.start settings)
      (σ.beginPackage package)).2.endPackage.request path).beginPackage package).WellFormed D :=
    ⟨hτ.symbols, hτ.compiled⟩
  -- the first attempt has left the packages compiled and under way as they were
  have hbeside : (σ.beginPackage package).Beside
      (compileAll settings (load settings packages depth) files (.start settings)
        (σ.beginPackage package)).2 :=
    compileAll_beside hload hkeeps hready _ hbegun ⟨rfl, rfl⟩
  have hway := congrArg List.tail hbeside.underWay
  refine ⟨⟨hbeside.compiled, hway⟩, _, compile_eq_failed.mpr ⟨?_, rfl⟩⟩
  refine (congrArg Compilation.result (compileAll_again hload hkeeps hready hfiles.prelude
    hfiles.apart (.start settings) hbegun ⟨rfl, rfl⟩ hbegun' fun file hfile => ?_)).trans hresult
  exact ⟨hbeside, ⟨hbeside.compiled, congrArg (package :: ·) hway⟩, rfl, fun _ _ => ⟨rfl, rfl⟩⟩

/--
A package that has failed to compile fails again at once, with the same reports, provided that its
files can be compiled again.  The session may be any in which all that is known is well formed, as
it is after checks of files and in the middle of one.
-/
theorem failed_import_fails_again {D : Discipline} (settings : Settings) (packages : Resolver)
    (depth : Nat) (package : String) (σ : Session) (errors : Batch) (τ : Session)
    (hpackages : packages.Meets D.condition) (hσ : σ.WellFormed D)
    (hfiles : ∀ files, packages.filesAt (settings.pathOf package) = .ok files →
      Recompilable D settings packages package σ files)
    (h : load settings packages depth package σ = (.error (.failed errors), τ)) :
    ∃ υ, load settings packages depth package τ = (.error (.failed errors), υ) := by
  have hstep := load_step settings packages depth package σ
  rw [h] at hstep
  generalize hr : ((.error (.failed errors), τ) : Except LoadError ModuleTy × Session) = r at hstep
  cases hstep with
  | standard | known | underWay | unavailable | tooDeep => cases hr
  | @compiled depth files hnew =>
      have hrequest : Recompilable D settings packages package
          (σ.request (settings.pathOf package)) files := by
        rcases hfiles files hnew.files with ⟨hagain, hapart, hprelude, himports⟩
        refine ⟨hagain, hapart, hprelude, fun file hfile stmt hstmt i hi hnew => ?_⟩
        rcases hnew with ⟨others, hnew⟩
        exact himports file hfile stmt hstmt i hi
          ⟨others, hnew.standard, hnew.unknown, hnew.idle, hnew.files⟩
      have hwell : (σ.request (settings.pathOf package)).WellFormed D :=
        ⟨hσ.symbols, hσ.compiled⟩
      obtain ⟨hbeside, υ, hagain⟩ := compile_again depth hpackages hwell hrequest hr.symm
        (settings.pathOf package)
      have hunknown : τ.compiled.get? package = none := by
        rw [hbeside.compiled]
        exact hnew.unknown
      have hidle : package ∉ τ.underWay := by
        rw [hbeside.underWay]
        exact hnew.idle
      exact ⟨υ, (load_succ depth hnew.standard hunknown hidle hnew.files).trans hagain⟩

end Session

namespace Sample

/-- A package with a negative number, with a function that returns a string for an integer, and with
a file that imports the package it belongs to. -/
def shop : PackageIndex :=
  ⟨Dict.empty.insert "src/shop" (.files [
    file "shop" [stmt (.importOne (ident "aura/strings") none), basket, cart,
      stmt (.binding ⟨ident "debt", false, some .int, some (expr (.unary .neg (expr (.int 1))))⟩),
      stmt (.function ⟨ident "size", .isPublic, [param "cart" "Cart"], some .int⟩
        (block [stmt (.ret (some (expr (.string "one"))))]))],
    file "stock" [countable, stmt (.importOne (ident "shop") none)]])⟩

/-- A package with a variable that takes its value from one declared further down. -/
def forward : PackageIndex :=
  ⟨Dict.empty.insert "src/forward" (.files [file "forward" [
    stmt (.binding ⟨ident "a", false, none, some (var "b")⟩),
    stmt (.binding ⟨ident "b", false, none, some (expr (.int 1))⟩)]])⟩

end Sample

theorem Session.failed_import_fails_again_shop :
    ∃ errors τ υ,
      loader {} Sample.shop "shop" (after {} Sample.shop [Sample.listingFile]) =
        (.error (.failed errors), τ) ∧
      loader {} Sample.shop "shop" τ = (.error (.failed errors), υ) := by
  have hσ : (after {} Sample.shop [Sample.listingFile]).WellFormed .asWritten :=
    after_wellFormed {} (PackageIndex.meets_resolver rfl) (List.forall_mem_singleton.mpr rfl)
  have hfiles : ∀ files, Sample.shop.filesAt (Settings.pathOf {} "shop") = .ok files →
      Recompilable .asWritten {} Sample.shop "shop"
        (after {} Sample.shop [Sample.listingFile]) files := by
    rintro _ ⟨⟩
    decide
  obtain ⟨υ, hagain⟩ := failed_import_fails_again {} Sample.shop Sample.shop.size "shop" _ _ _
    (PackageIndex.meets_resolver rfl) hσ hfiles rfl
  exact ⟨_, _, υ, rfl, hagain⟩

/-- A second import succeeds where the first has failed: by then the variable is declared. -/
theorem Session.failed_import_succeeds :
    ∃ errors τ m υ, loader {} Sample.forward "forward" (start {}) = (.error (.failed errors), τ) ∧
      loader {} Sample.forward "forward" τ = (.ok m, υ) :=
  ⟨_, _, _, _, rfl, rfl⟩

end StaticTyping
