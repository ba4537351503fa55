import Mathlib.Data.List.Induction
import StaticTyping.Proofs.Compiled
import StaticTyping.Proofs.Dialogue
import StaticTyping.Proofs.Growth
import StaticTyping.Proofs.Order.Passes

/-!
# Where checks begin

A file is checked on its own, or as part of a package that another file asks for, in the middle of
the check of that one.  `Session.Begins` lists all of these beginnings, and `Session.Called` the
sessions in which packages are asked for.  A package that a session has compiled was compiled in one
of these.
-/

namespace StaticTyping
namespace Session

variable (ok : Source.File → Prop) (settings : Settings) (packages : Resolver)

def Asks (load : Loader) (file : Source.File) (σ : Session) (package : String) (τ : Session) :
    Prop :=
  Asked (fun load => Checker.runFile settings load file σ) load package τ

/-- The check of a file begins in a session, while the last one of some files is checked, and with
so many compilations still to be nested.  The file is that one, or one of a package that a file has
asked for. -/
inductive Begins : List Source.File → Nat → Source.File → Session → Prop where
  | file (files : List Source.File) {file} : ok file →
      Begins (files ++ [file]) packages.depth file (after settings packages files)
  | package {history depth outer σ package τ files before file rest} :
      Begins history (depth + 1) outer σ →
      Asks settings (load settings packages (depth + 1)) outer σ package τ →
      Uncompiled settings packages package τ files → files = before ++ file :: rest → ok file →
      Begins history depth file
        (compileAll settings (load settings packages depth) before (.start settings)
          ((τ.request (settings.pathOf package)).beginPackage package)).2

/-- A package is asked for in a session, while the last one of some files is checked. -/
def Called (history : List Source.File) (depth : Nat) (package : String) (τ : Session) : Prop :=
  ∃ file σ, Begins (fun _ => True) settings packages history depth file σ ∧
    Asks settings (load settings packages depth) file σ package τ

/-- A package was asked for in a session and compiled there, with success. -/
structure CompiledIn (history : List Source.File) (depth : Nat) (package : String) (σ : Session)
    (files : List Source.File) (typed : List Typed.File) (m : ModuleTy) : Prop where
  called : Called settings packages history (depth + 1) package σ
  uncompiled : Uncompiled settings packages package σ files
  checked : ∃ τ, Checked settings (load settings packages depth) files
    ((σ.request (settings.pathOf package)).beginPackage package) typed τ
  gathers : m.Gathers typed

def Traced (history : List Source.File) (σ : Session) : Prop :=
  ∀ package m, σ.compiled.get? package = some m → ∃ earlier, earlier <+: history ∧
    ∃ depth σ files typed, CompiledIn settings packages earlier depth package σ files typed m

/-!
# Loads
-/

theorem load_counts (depth : Nat) : (load settings packages depth).Counts := by
  have htables : TableFree fun σ τ : Session => σ.requested.length ≤ τ.requested.length :=
    ⟨fun _ => Nat.le_refl _, Nat.le_trans, fun _ _ => Nat.le_refl _⟩
  apply load_induction (P := fun _ σ r => σ.requested.length ≤ r.2.requested.length)
  · exact fun _ _ => Nat.le_refl _
  · exact fun _ => Nat.le_refl _
  · exact fun _ _ => Nat.le_refl _
  · exact fun _ _ => Nat.le_succ _
  · intro depth package files σ ih _
    have hall := htables.compileAll settings ih files (.start settings)
      ((σ.request (settings.pathOf package)).beginPackage package)
    have hmore := Nat.le_trans (Nat.le_succ _) hall
    rcases compile_cases package files (σ.request (settings.pathOf package)) rfl with
      ⟨m, fs, hcompile, _, _⟩ | ⟨errors, hcompile⟩
    · rw [hcompile]
      exact hmore
    · rw [hcompile]
      exact hmore

variable {settings packages} {history : List Source.File} {depth : Nat} {package : String}
  {σ τ : Session} {file : Source.File} {files : List Source.File}

theorem Traced.mono (h : Traced settings packages history σ) {later : List Source.File}
    (hlater : history <+: later) : Traced settings packages later σ := by
  intro package m hm
  rcases h package m hm with ⟨earlier, hearlier, hcompiled⟩
  exact ⟨earlier, hearlier.trans hlater, hcompiled⟩

theorem Traced.insert (h : Traced settings packages history σ) {m : ModuleTy}
    {typed : List Typed.File}
    (hm : CompiledIn settings packages history depth package τ files typed m)
    (way : List String) :
    Traced settings packages history
      { σ with compiled := σ.compiled.insert package m, underWay := way } := by
  intro other n hn
  change (σ.compiled.insert package m).get? other = some n at hn
  rw [Dict.get?_insert] at hn
  split at hn
  next hother =>
    cases hn
    exact ⟨history, List.prefix_refl _, depth, τ, files, typed, hother ▸ hm⟩
  next => exact h other n hn

theorem Begins.traced_runFile
    (h : Begins (fun _ => True) settings packages history depth file σ)
    (hload : ∀ package τ, Called settings packages history depth package τ →
      Traced settings packages history τ →
      Traced settings packages history (load settings packages depth package τ).2)
    (hσ : Traced settings packages history σ) :
    (∀ package τ, Asks settings (load settings packages depth) file σ package τ →
      Traced settings packages history τ) ∧
    Traced settings packages history
      (Checker.runFile settings (load settings packages depth) file σ).2 := by
  apply (Checker.runFile_conversing settings file σ).invariant (load_counts settings packages depth)
  · exact fun _ _ h => h
  · exact hσ
  · exact fun package τ hasks => hload package τ ⟨file, σ, h, hasks⟩

theorem compileAll_concat (load : Loader) (before : List Source.File) (file : Source.File)
    (c : Compilation) (σ : Session) :
    (compileAll settings load (before ++ [file]) c σ).2 =
      (Checker.runFile settings load file (compileAll settings load before c σ).2).2 := by
  induction before generalizing c σ with
  | nil => rfl
  | cons first before ih => exact ih _ _

theorem Called.traced_compileAll (h : Called settings packages history (depth + 1) package τ)
    (hnew : Uncompiled settings packages package τ files)
    (hload : ∀ package τ, Called settings packages history depth package τ →
      Traced settings packages history τ →
      Traced settings packages history (load settings packages depth package τ).2)
    (hτ : Traced settings packages history τ) {before rest : List Source.File}
    (hfiles : files = before ++ rest) :
    Traced settings packages history
      (compileAll settings (load settings packages depth) before (.start settings)
        ((τ.request (settings.pathOf package)).beginPackage package)).2 := by
  rcases h with ⟨outer, σ, hbegins, hasks⟩
  induction before using List.reverseRecOn generalizing rest with
  | nil => exact hτ
  | append_singleton before file ih =>
      have hsplit : files = before ++ file :: rest := by
        rw [hfiles, List.append_assoc]
        rfl
      rw [compileAll_concat]
      have hbegun := Begins.package hbegins hasks hnew hsplit trivial
      exact (hbegun.traced_runFile hload (ih hsplit)).2

theorem load_traced (depth : Nat) (package : String) (τ : Session)
    (h : Called settings packages history depth package τ)
    (hτ : Traced settings packages history τ) :
    Traced settings packages history (load settings packages depth package τ).2 := by
  revert h hτ
  apply load_stepwise (P := fun depth package τ r =>
    Called settings packages history depth package τ → Traced settings packages history τ →
      Traced settings packages history r.2)
  intro depth package τ r ih hstep h hτ
  cases hstep with
  | standard => exact hτ
  | known => exact hτ
  | underWay => exact hτ
  | unavailable => exact hτ
  | tooDeep => exact hτ
  | @compiled depth files hnew =>
      have hdone := h.traced_compileAll hnew (ih depth rfl) hτ (List.append_nil files).symm
      rcases compile_cases package files (τ.request (settings.pathOf package)) rfl with
        ⟨m, typed, hcompile, hchecked, hgathers⟩ | ⟨errors, hcompile⟩
      · rw [hcompile]
        exact hdone.insert ⟨h, hnew, ⟨_, hchecked⟩, hgathers⟩ _
      · rw [hcompile]
        exact hdone

/-!
# Sessions
-/

theorem after_concat (files : List Source.File) (file : Source.File) :
    after settings packages (files ++ [file]) =
      (check settings packages file (after settings packages files)).2 :=
  List.foldl_concat _ _ _ _

theorem after_traced (files : List Source.File) :
    Traced settings packages files (after settings packages files) := by
  induction files using List.reverseRecOn with
  | nil =>
      intro package m hm
      cases hm
  | append_singleton files file ih =>
      have hbegins : Begins (fun _ => True) settings packages (files ++ [file]) packages.depth file
          (after settings packages files) := .file files trivial
      rw [after_concat]
      exact (hbegins.traced_runFile (load_traced _) (ih.mono (List.prefix_append _ _))).2

theorem Begins.traced (h : Begins (fun _ => True) settings packages history depth file σ) :
    Traced settings packages history σ := by
  induction h with
  | file files _ => exact (after_traced files).mono (List.prefix_append _ _)
  | package hbegins hasks hnew hsplit _ ih =>
      have hτ := (hbegins.traced_runFile (load_traced _) ih).1 _ _ hasks
      exact Called.traced_compileAll ⟨_, _, hbegins, hasks⟩ hnew (load_traced _) hτ hsplit

theorem Called.traced (h : Called settings packages history depth package τ) :
    Traced settings packages history τ := by
  rcases h with ⟨file, σ, hbegins, hasks⟩
  exact (hbegins.traced_runFile (load_traced _) hbegins.traced).1 package τ hasks

/-!
# The first import of a file
-/

theorem runPhase_idle {env : Env} {phase : Checker.Phase} (hphase : phase.Reporting env)
    {ss : List Source.Stmt} (hidle : ∀ s ∈ ss, phase s = none) {s t : State} {slots : List Slot}
    (hrun : (Checker.runPhase phase (ss.map fun s => ⟨s, none⟩)).Succeeds env s slots t) :
    t = s := by
  induction ss generalizing s slots with
  | nil => exact (CheckM.Succeeds.pure_iff.mp hrun).2.1
  | cons st ss ih =>
      rcases List.forall_mem_cons.mp hidle with ⟨hst, hss⟩
      obtain ⟨slot, rest, u, rfl, hslot, hrest⟩ :=
        (CheckM.Succeeds.collect_cons_iff (Checker.fillSlot_reporting hphase)).mp hrun
      have hsame : slot = ⟨st, none⟩ ∧ u = s ∧ s.report.reported = false :=
        (Checker.fillSlot_idle hst).mp hslot
      exact (ih hss hrest).trans hsame.2.1

theorem Asks.of_first_import {load : Loader} {f : Typed.File}
    (hrun : Checker.runFile settings load file σ = (.ok f, τ)) {pre post : List Source.Stmt}
    {package : Ident} {alias? : Option Ident} {span : Span}
    (hstmts : file.stmts = pre ++ ⟨.importOne package alias?, span⟩ :: post)
    (hpre : ∀ s ∈ pre, Checker.importPhase s = none) :
    Asks settings load file σ package.name σ := by
  classical
  -- an answer with which the import fails
  let other : Loader := fun q υ =>
    if q = package.name ∧ υ = σ then (.error .cycle, υ) else load q υ
  have hrefused : other package.name σ = (.error .cycle, σ) := if_pos ⟨rfl, rfl⟩
  refine ⟨other, fun q υ h => if_neg h, ?_⟩
  intro hsame
  obtain ⟨name, env, items, s, t, henv, houtline, _⟩ :=
    Checker.runFile_eq_ok.mp (hsame.trans hrun)
  obtain ⟨slots, _, _, _, _, s₁, _, _, _, houtlines, _⟩ := Checker.outline_iff.mp houtline
  have himports := houtlines.imports
  have hreporting := Checker.importPhase_reporting env
  rw [hstmts, List.map_append, List.map_cons] at himports
  obtain ⟨_, _, u, _, _, hbefore, hrest⟩ :=
    (CheckM.Succeeds.collect_append_iff (Checker.fillSlot_reporting hreporting)).mp himports
  obtain ⟨_, _, _, _, hfill, _⟩ :=
    (CheckM.Succeeds.collect_cons_iff (Checker.fillSlot_reporting hreporting)).mp hrest
  cases runPhase_idle hreporting hpre hbefore
  obtain ⟨_, _, hitem⟩ := (Checker.fillSlot_iff rfl).mp hfill
  have hvalue := hitem.value
  rw [← bind_pure_comp] at hvalue
  rcases CheckM.bind_apply_eq_ok.mp hvalue with ⟨_, _, hstmt, _⟩
  rcases CheckM.bind_apply_eq_ok.mp hstmt with ⟨_, _, himport, _⟩
  rcases CheckM.importModule_eq_ok himport with ⟨m, υ, hloaded, _⟩
  rcases Option.map_eq_some_iff.mp henv with ⟨_, _, hpair⟩
  cases hpair
  exact absurd (hrefused.symm.trans hloaded) nofun

end Session
end StaticTyping
