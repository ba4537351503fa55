import StaticTyping.Checker.Session

/-!
# Packages that compile

A file that fails has something reported, and what is reported stays reported.  So a package
compiles only if all its files are checked with success, one after another; and then its exports
are theirs.
-/

namespace StaticTyping

open CheckM

/-!
# Files that fail
-/

theorem Checker.reported_of_pass {α : Type} {x : CheckM α} {env : Env} {s t : State} {r : Batch}
    (h : pass x env s = (.error r, t)) : r.reported := by
  unfold pass attempt at h
  rcases hrun : x env s with ⟨r', u⟩
  rw [hrun] at h
  cases r' with
  | ok a =>
      dsimp only at h
      split at h
      next hreported =>
        cases h
        exact hreported
      next => cases h
  | error e =>
      cases h
      exact u.report.reported_push _

theorem Checker.reported_of_runFile {settings : Settings} {load : Loader} {file : Source.File}
    {σ τ : Session} {r : Batch} (h : runFile settings load file σ = (.error r, τ)) :
    r.reported := by
  unfold runFile at h
  split at h
  · cases h
    exact Batch.reported_push _ _
  · split at h
    next hpass =>
      cases h
      exact reported_of_pass hpass
    next =>
      split at h
      next hpass =>
        cases h
        exact reported_of_pass hpass
      next => cases h

/-!
# Compilations
-/

theorem Batch.reported_extend_of_reported (b : Batch) {other : Batch} (h : other.reported) :
    (b.extend other).reported = true := by
  have htotal : 0 < other.total := of_decide_eq_true h
  apply decide_eq_true
  show 0 < (other.errors.foldl push b).total + (other.total - other.errors.length)
  rw [total_foldl_push]
  omega

/-- The exports of files put together, those of earlier files in front. -/
structure ModuleTy.Gathers (m : ModuleTy) (fs : List Typed.File) : Prop where
  functions : m.functions = fs.flatMap fun f => f.stmts.filterMap Typed.Stmt.exportedFunction?
  classes : m.classes = fs.flatMap fun f => f.stmts.filterMap Typed.Stmt.exportedClass?
  values : m.values = fs.flatMap fun f => f.stmts.filterMap Typed.Stmt.exportedVariable?

theorem Typed.File.exports_gathers (f : Typed.File) : f.exports.Gathers [f] where
  functions := by rw [List.flatMap_singleton]; rfl
  classes := by rw [List.flatMap_singleton]; rfl
  values := by rw [List.flatMap_singleton]; rfl

theorem ModuleTy.Gathers.append {m n : ModuleTy} {fs gs : List Typed.File} (hm : m.Gathers fs)
    (hn : n.Gathers gs) : (m.append n).Gathers (fs ++ gs) where
  functions := by rw [List.flatMap_append, ← hm.functions, ← hn.functions]; rfl
  classes := by rw [List.flatMap_append, ← hm.classes, ← hn.classes]; rfl
  values := by rw [List.flatMap_append, ← hm.values, ← hn.values]; rfl

namespace Compilation

variable (c : Compilation) (f : Typed.File)

theorem errors_add_ok : (c.add (.ok f)).errors = c.errors := by
  unfold add
  cases c.exports <;> rfl

theorem exports_add_ok :
    (c.add (.ok f)).exports = some ((c.exports.map (·.append f.exports)).getD f.exports) := by
  unfold add
  cases c.exports <;> rfl

variable {c}

theorem reported_add (h : c.errors.reported) (r : Except Batch Typed.File) :
    (c.add r).errors.reported := by
  cases r with
  | ok f =>
      rw [c.errors_add_ok]
      exact h
  | error errors => exact Batch.reported_extend errors h

theorem result_of_reported (h : c.errors.reported) : ∃ errors, c.result = .error errors := by
  unfold Compilation.result
  split
  · rw [if_pos h]
    exact ⟨_, rfl⟩
  · exact ⟨_, rfl⟩

theorem result_eq_ok {m : ModuleTy} (h : c.result = .ok m) :
    c.exports = some m ∧ c.errors.reported = false := by
  unfold Compilation.result at h
  split at h
  next n hn =>
    split at h
    · cases h
    next hquiet =>
      cases h
      exact ⟨hn, Bool.eq_false_iff.mpr hquiet⟩
  next => cases h

def Gathers (c : Compilation) (fs : List Typed.File) : Prop :=
  match c.exports with
  | none => fs = []
  | some m => m.Gathers fs

theorem Gathers.add {fs : List Typed.File} (h : c.Gathers fs) (f : Typed.File) :
    (c.add (.ok f)).Gathers (fs ++ [f]) := by
  rcases c with ⟨errors, exports⟩
  cases exports with
  | none =>
      have hfs : fs = [] := h
      rw [hfs]
      exact f.exports_gathers
  | some m => exact ModuleTy.Gathers.append (n := f.exports) h f.exports_gathers

end Compilation

namespace Session

variable {settings : Settings} {load : Loader}

theorem reported_compileAll (files : List Source.File) {c : Compilation} (h : c.errors.reported)
    (σ : Session) : (compileAll settings load files c σ).1.errors.reported := by
  induction files generalizing c σ with
  | nil => exact h
  | cons file files ih => exact ih (Compilation.reported_add h _) _

variable (settings load)

/-- Files that are checked one after another, all with success. -/
inductive Checked : List Source.File → Session → List Typed.File → Session → Prop where
  | nil {σ} : Checked [] σ [] σ
  | cons {file files σ τ υ f fs} : Checker.runFile settings load file σ = (.ok f, τ) →
      Checked files τ fs υ → Checked (file :: files) σ (f :: fs) υ

variable {settings load}

theorem checked_of_compileAll (files : List Source.File) {c : Compilation} (σ : Session)
    (hquiet : (compileAll settings load files c σ).1.errors.reported = false) :
    ∃ fs, Checked settings load files σ fs (compileAll settings load files c σ).2 ∧
      ∀ done, c.Gathers done →
        (compileAll settings load files c σ).1.Gathers (done ++ fs) := by
  induction files generalizing c σ with
  | nil => exact ⟨[], .nil, fun done h => (List.append_nil done).symm ▸ h⟩
  | cons file files ih =>
      rw [compileAll] at hquiet ⊢
      rcases hrun : Checker.runFile settings load file σ with ⟨r, τ⟩
      rw [hrun] at hquiet
      cases r with
      | error errors =>
          have hreported := c.errors.reported_extend_of_reported (Checker.reported_of_runFile hrun)
          have hstays :
              (compileAll settings load files (c.add (.error errors)) τ).1.errors.reported :=
            reported_compileAll files hreported τ
          exact (Bool.false_ne_true (hquiet.symm.trans hstays)).elim
      | ok f =>
          rcases ih τ hquiet with ⟨fs, hchecked, hgathers⟩
          refine ⟨f :: fs, .cons hrun hchecked, fun done h => ?_⟩
          have hall := hgathers _ (h.add f)
          rw [List.append_assoc, List.singleton_append] at hall
          exact hall

theorem compile_cases (package : String) (files : List Source.File) (σ : Session)
    {done : Compilation × Session}
    (hdone : compileAll settings load files (.start settings) (σ.beginPackage package) = done) :
    (∃ m fs, compile settings load package files σ = (.ok m,
        { done.2.endPackage with compiled := done.2.compiled.insert package m }) ∧
      Checked settings load files (σ.beginPackage package) fs done.2 ∧ m.Gathers fs) ∨
    ∃ errors, compile settings load package files σ =
      (.error (.failed errors), done.2.endPackage) := by
  subst hdone
  unfold compile
  dsimp only
  split
  next m hresult =>
    rcases Compilation.result_eq_ok hresult with ⟨hexports, hquiet⟩
    rcases checked_of_compileAll files _ hquiet with ⟨fs, hchecked, hgathers⟩
    have hall := hgathers [] rfl
    unfold Compilation.Gathers at hall
    rw [hexports] at hall
    exact .inl ⟨m, fs, rfl, hchecked, hall⟩
  next errors _ => exact .inr ⟨errors, rfl⟩

end Session
end StaticTyping
