import StaticTyping.Proofs.Location.Tree
import StaticTyping.Proofs.Loading

/-!
# Diagnostics point into files

A diagnostic names the file that was being checked when its fault was found, and a line of that
file.  It keeps both when it goes from the report of a package into that of a file which imports it.
So what a failing check reports points into the checked file, or into a file that was returned for
one of the paths asked for on the way.
-/

namespace StaticTyping

open CheckM

/-!
# What batches hold
-/

namespace Batch

theorem errors_push_subset (b : Batch) (d : Diagnostic) :
    (b.push d).errors ⊆ b.errors ++ [d] := by
  unfold push
  dsimp only
  split
  · exact List.Subset.refl _
  · exact List.subset_append_left _ _

theorem errors_extend_subset (b other : Batch) :
    (b.extend other).errors ⊆ b.errors ++ other.errors := by
  show (other.errors.foldl push b).errors ⊆ _
  generalize other.errors = ds
  induction ds generalizing b with
  | nil => simp
  | cons d ds ih =>
      have hpush := errors_push_subset b d
      intro d' hd'
      rcases List.mem_append.mp (ih (b.push d) hd') with hd' | hd'
      · rcases List.mem_append.mp (hpush hd') with hd' | hd'
        · simp [hd']
        · simp [List.mem_singleton.mp hd']
      · simp [hd']

end Batch

def diagnosticsOf {ε α : Type} (errors : ε → List Diagnostic) : Except ε α → List Diagnostic
  | .ok _ => []
  | .error e => errors e

def LoadError.diagnostics : LoadError → List Diagnostic
  | .failed errors => errors.errors
  | _ => []

theorem Compilation.errors_of_result {c : Compilation} {errors : Batch}
    (h : c.result = .error errors) : errors = c.errors := by
  unfold result at h
  split at h
  · split at h <;> cases h
    rfl
  · cases h
    rfl

/-!
# Diagnostics between two sessions
-/

/-- From one session to another paths have been asked for, and every diagnostic points into a file
of one's own or one that was returned for these paths. -/
def Session.Explains (packages : Resolver) (own : Source.File → Prop) (σ τ : Session)
    (ds : List Diagnostic) : Prop :=
  ∃ asked, τ.requested = asked ++ σ.requested ∧
    ∀ d ∈ ds, ∃ file, (own file ∨ packages.Returns asked file) ∧ d.PointsInto file

namespace Session.Explains

variable {packages : Resolver} {own own' : Source.File → Prop} {σ τ υ : Session}
  {ds ds' : List Diagnostic}

theorem refl (σ : Session) : Explains packages own σ σ [] :=
  ⟨[], rfl, fun _ hd => absurd hd List.not_mem_nil⟩

theorem of_subset (h : Explains packages own σ τ ds) (hsubset : ds' ⊆ ds) :
    Explains packages own σ τ ds' := by
  rcases h with ⟨asked, hasked, hpoints⟩
  exact ⟨asked, hasked, fun d hd => hpoints d (hsubset hd)⟩

theorem mono (h : Explains packages own σ τ ds) (hown : ∀ file, own file → own' file) :
    Explains packages own' σ τ ds := by
  rcases h with ⟨asked, hasked, hpoints⟩
  refine ⟨asked, hasked, fun d hd => ?_⟩
  rcases hpoints d hd with ⟨file, hfile, hpoint⟩
  exact ⟨file, hfile.imp_left (hown file), hpoint⟩

theorem trans (h : Explains packages own σ τ ds) (h' : Explains packages own τ υ ds') :
    Explains packages own σ υ (ds ++ ds') := by
  rcases h with ⟨asked, hasked, hpoints⟩
  rcases h' with ⟨more, hmore, hpoints'⟩
  refine ⟨more ++ asked, ?_, fun d hd => ?_⟩
  · rw [hmore, hasked, List.append_assoc]
  · rcases List.mem_append.mp hd with hd | hd
    · rcases hpoints d hd with ⟨file, hfile, hpoint⟩
      exact ⟨file, hfile.imp_right (·.of_subset (List.subset_append_right _ _)), hpoint⟩
    · rcases hpoints' d hd with ⟨file, hfile, hpoint⟩
      exact ⟨file, hfile.imp_right (·.of_subset (List.subset_append_left _ _)), hpoint⟩

theorem push {b : Batch} (h : Explains packages own σ τ b.errors) {d : Diagnostic}
    {file : Source.File} (hfile : own file) (hpoint : d.PointsInto file) :
    Explains packages own σ τ (b.push d).errors := by
  have hone : Explains packages own τ τ [d] := by
    refine ⟨[], rfl, fun d' hd' => ?_⟩
    rw [List.mem_singleton.mp hd']
    exact ⟨file, .inl hfile, hpoint⟩
  exact (h.trans hone).of_subset (b.errors_push_subset d)

theorem extend {b other : Batch} (h : Explains packages own σ τ b.errors)
    (h' : Explains packages own τ υ other.errors) :
    Explains packages own σ υ (b.extend other).errors :=
  (h.trans h').of_subset (b.errors_extend_subset other)

theorem request {path : String} {files : List Source.File}
    (hfiles : packages.filesAt path = .ok files)
    (h : Explains packages (· ∈ files) (σ.request path) τ ds) :
    Explains packages (fun _ => False) σ τ ds := by
  rcases h with ⟨asked, hasked, hpoints⟩
  refine ⟨asked ++ [path], ?_, fun d hd => ?_⟩
  · rw [hasked, List.append_assoc]
    rfl
  · rcases hpoints d hd with ⟨file, hfile, hpoint⟩
    refine ⟨file, .inr ?_, hpoint⟩
    rcases hfile with hfile | hfile
    · exact ⟨path, by simp, files, hfiles, hfile⟩
    · exact hfile.of_subset (List.subset_append_left _ _)

end Session.Explains

def Loader.Explains (packages : Resolver) (load : Loader) : Prop :=
  ∀ package (σ : Session), Session.Explains packages (fun _ => False) σ (load package σ).2
    (diagnosticsOf LoadError.diagnostics (load package σ).1)

/-!
# Files
-/

def Provenance.ofFile {packages : Resolver} (env : Env) (file : Source.File)
    (hpath : env.file = file.path) (hload : env.load.Explains packages) (σ : Session) :
    Provenance env where
  marks line := ∃ span ∈ file.spans, span.line = line
  holds s := Session.Explains packages (· = file) σ s.session s.report.errors
  apart {s t} hrequested hreport h := by
    rcases h with ⟨asked, hasked, hpoints⟩
    rw [← hreport] at hpoints
    exact ⟨asked, hrequested.trans hasked, hpoints⟩
  load package line s h := by
    have hloaded := (hload package s.session).mono fun f hf => (hf.elim : f = file)
    unfold CheckM.loadPackage
    revert hloaded
    rcases env.load package s.session with ⟨r, τ⟩
    intro hloaded
    have hquiet : Session.Explains packages (· = file) σ τ s.report.errors :=
      (h.trans hloaded).of_subset (List.subset_append_left _ _)
    cases r with
    | ok m => exact hquiet
    | error e =>
        cases e with
        | cycle => exact hquiet
        | unavailable reason => exact hquiet
        | failed errors => exact h.extend hloaded
  report e hline h := h.push rfl ⟨hpath, .inl hline⟩

theorem Provenance.Traces.pass {env : Env} {P : Provenance env} {α : Type} {x : CheckM α}
    (hx : P.Traces x) {s : State} (hs : P.holds s) :
    (∀ a t, Checker.pass x env s = (.ok a, t) → P.holds t) ∧
    ∀ errors t, Checker.pass x env s = (.error errors, t) →
      ∃ u, P.holds u ∧ u.session = t.session ∧ u.report = errors := by
  have hkept := hx.attempt.keeps s hs
  unfold Checker.pass
  split
  next a u hrun =>
    rw [hrun] at hkept
    split
    · constructor
      · intro _ _ h
        cases h
      · intro errors t h
        cases h
        exact ⟨u, hkept, rfl, rfl⟩
    · constructor
      · intro _ _ h
        cases h
        exact hkept
      · intro _ _ h
        cases h
  next u _ hrun =>
    have hkept : P.holds u := by
      rw [hrun] at hkept
      exact hkept
    constructor
    · intro _ _ h
      cases h
    · intro errors t h
      cases h
      exact ⟨u, hkept, rfl, rfl⟩

theorem Checker.pointsInto_unnamed {settings : Settings} {file : Source.File} {d : Diagnostic}
    (h : d ∈ (unnamed settings file).errors) : d.PointsInto file := by
  have hmem := Batch.errors_push_subset _ _ h
  rcases file with ⟨path, ss⟩
  cases ss with
  | nil =>
      cases List.mem_singleton.mp hmem
      exact ⟨rfl, .inr ⟨rfl, rfl⟩⟩
  | cons s ss =>
      cases List.mem_singleton.mp hmem
      rcases s with ⟨kind, span⟩
      exact ⟨rfl, .inl ⟨span, by simp [Source.File.spans, Source.Stmt.allSpans, Source.Stmt.spans],
        rfl⟩⟩

namespace Session

section

variable {packages : Resolver} (settings : Settings) {load : Loader}
  (hload : load.Explains packages)
include hload

theorem Explains.runFile (file : Source.File) (σ : Session) :
    Explains packages (· = file) σ (Checker.runFile settings load file σ).2
      (diagnosticsOf Batch.errors (Checker.runFile settings load file σ).1) := by
  unfold Checker.runFile
  split
  · exact ⟨[], rfl, fun d hd => ⟨file, .inl rfl, Checker.pointsInto_unnamed hd⟩⟩
  next name env henv =>
    rcases Option.map_eq_some_iff.mp henv with ⟨_, _, hpair⟩
    cases hpair
    let P := Provenance.ofFile ⟨settings, file.path, Checker.spaceOf σ name, load⟩ file rfl hload σ
    have hcovers : P.Covers (Source.Stmt.allSpans file.stmts) := by
      intro span hspan
      exact ⟨span, hspan, rfl⟩
    have hinitial : P.holds (Checker.initial settings σ) := Explains.refl σ
    have hfirst := (Provenance.outline hcovers).pass hinitial
    split
    next errors s hs =>
      rcases hfirst.2 errors s hs with ⟨u, hu, hsession, rfl⟩
      rw [← hsession]
      exact hu
    next items s hs =>
      -- the items of the second pass stem from the statements, and so have spans of the file
      have houtside : Placement.Outside (Checker.initial settings σ) := rfl
      have hitems := Placement.stemsFrom_of_pass houtside hs
      have hsecond := (Provenance.finish hcovers hitems).pass (hfirst.1 items s hs)
      split
      next errors t ht =>
        rcases hsecond.2 errors t ht with ⟨u, hu, hsession, rfl⟩
        rw [← hsession]
        exact hu
      next stmts t ht => exact (hsecond.1 stmts t ht).of_subset (List.nil_subset _)

theorem Explains.compileAll {own : Source.File → Prop} {files : List Source.File}
    (hown : ∀ file ∈ files, own file) {σ τ : Session} {c : Compilation}
    (h : Explains packages own σ τ c.errors.errors) :
    Explains packages own σ (compileAll settings load files c τ).2
      (compileAll settings load files c τ).1.errors.errors := by
  induction files generalizing c τ with
  | nil => exact h
  | cons file files ih =>
      rcases List.forall_mem_cons.mp hown with ⟨hfirst, hrest⟩
      have hfile : Explains packages own τ (Checker.runFile settings load file τ).2
          (diagnosticsOf Batch.errors (Checker.runFile settings load file τ).1) := by
        apply (Explains.runFile settings hload file τ).mono
        intro f hf
        rw [hf]
        exact hfirst
      apply ih hrest
      revert hfile
      rcases Checker.runFile settings load file τ with ⟨r, υ⟩
      intro hfile
      cases r with
      | ok typed =>
          have hquiet := (h.trans hfile).of_subset (List.subset_append_left _ _)
          dsimp only [Compilation.add]
          split <;> exact hquiet
      | error errors => exact h.extend hfile

theorem Explains.compile (package : String) (files : List Source.File) (σ : Session) :
    Explains packages (· ∈ files) σ (compile settings load package files σ).2
      (diagnosticsOf LoadError.diagnostics (compile settings load package files σ).1) := by
  have hstart : Explains packages (· ∈ files) σ (σ.beginPackage package)
      (Compilation.start settings).errors.errors := refl σ
  have hall := Explains.compileAll settings hload (fun file hfile => hfile) hstart
  unfold Session.compile
  dsimp only
  split
  · exact hall.of_subset (List.nil_subset _)
  next errors herrors =>
    rw [Compilation.errors_of_result herrors]
    exact hall

end

variable (settings : Settings) (packages : Resolver)

theorem load_explains (depth : Nat) : Loader.Explains packages (load settings packages depth) := by
  intro package σ
  apply load_induction (P := fun _ σ r => Explains packages (fun _ => False) σ r.2
    (diagnosticsOf LoadError.diagnostics r.1))
  · exact fun σ _ => .refl σ
  · exact fun _ => .refl _
  · exact fun _ σ => .refl σ
  · intro package e σ he
    refine ⟨[settings.pathOf package], rfl, ?_⟩
    rcases he with rfl | ⟨reason, rfl⟩
    · exact fun _ hd => absurd hd List.not_mem_nil
    · exact fun _ hd => absurd hd List.not_mem_nil
  · intro depth package files σ ih hnew
    exact (Explains.compile settings ih package files _).request hnew.files

/--
Every diagnostic points into the file it names.  Whatever the session, if the check of a file fails,
then each diagnostic that it stores has the path of the file itself, or of a file that was returned
for one of the paths which the check has asked for; and its line is one on which a node or an
identifier in that file starts, or else the first line of a file without statements.
-/
theorem diagnostics_point_into_files {file : Source.File} {σ : Session} {errors : Batch}
    (h : (check settings packages file σ).1 = .error errors) :
    ∃ asked, (check settings packages file σ).2.requested = asked ++ σ.requested ∧
      ∀ d ∈ errors.errors, ∃ f, (f = file ∨ packages.Returns asked f) ∧ d.PointsInto f := by
  have hcheck := Explains.runFile settings (load_explains settings packages packages.depth) file σ
  change Explains _ _ σ (check settings packages file σ).2
    (diagnosticsOf Batch.errors (check settings packages file σ).1) at hcheck
  rw [h] at hcheck
  exact hcheck

end Session

namespace Sample

def copying (line : UInt32) (name source : String) : Source.Stmt :=
  ⟨.binding ⟨⟨name, .atLine line⟩, false, none,
    some ⟨.var ⟨source, .atLine (line + 1)⟩, .atLine (line + 1)⟩⟩, .atLine line⟩

def heading (module : String) : Source.Stmt :=
  ⟨.moduleName ⟨module, .atLine 1⟩, .atLine 1⟩

def broken : PackageIndex :=
  ⟨Dict.empty.insert "src/broken" (.files [⟨"src/broken/empty.aura", []⟩,
    ⟨"src/broken/sum.aura", [heading "sum", copying 3 "total" "missing"]⟩])⟩

def brokenImport : Source.File :=
  ⟨"main.aura", [heading "main", ⟨.importOne ⟨"broken", .atLine 2⟩ none, .atLine 2⟩,
    copying 5 "half" "whole"]⟩

end Sample

/-- The reports on two files of a package and on the file that imports it. -/
theorem Session.diagnostics_point_into_files_broken :
    ∃ errors, (check {} Sample.broken Sample.brokenImport (start {})).1 = .error errors ∧
      errors.errors.map (fun d => (d.file, d.line)) = [("src/broken/empty.aura", 1),
        ("src/broken/sum.aura", 4), ("main.aura", 2), ("main.aura", 6)] ∧
      ∃ asked, (check {} Sample.broken Sample.brokenImport (start {})).2.requested =
          asked ++ (start {}).requested ∧
        ∀ d ∈ errors.errors, ∃ f, (f = Sample.brokenImport ∨ Sample.broken.resolver.Returns asked f) ∧
          d.PointsInto f :=
  ⟨_, rfl, rfl, diagnostics_point_into_files {} Sample.broken rfl⟩

end StaticTyping
