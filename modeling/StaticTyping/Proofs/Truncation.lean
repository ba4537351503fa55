import StaticTyping.Proofs.Loading
import StaticTyping.Proofs.Log
import StaticTyping.Proofs.Pairing.Same

/-!
# The limit of reports

The limit that the settings give is applied at every level: to the report of each file, and to what
the files of a package have come to.  Still it decides nothing but how much of a report is shown.
Behind the reports of two sessions of different limits there is one log; the sessions take the same
way, and they ask for the same packages.
-/

namespace StaticTyping

theorem Batch.eq_of_ofLog_length {log log' : List Diagnostic}
    (h : ofLog log.length log = ofLog log.length log') : log = log' := by
  have hlength : log.length = log'.length := congrArg Batch.total h
  have hshown : log.take log.length = log'.take log.length := congrArg Batch.errors h
  rw [List.take_length, hlength, List.take_length] at hshown
  exact hshown

def Batch.SameLog (limit limit' : Nat) (r r' : Batch) : Prop :=
  ∃ log, r = .ofLog limit log ∧ r' = .ofLog limit' log

theorem Batch.SameLog.growing (limit limit' : Nat) : Batch.Growing (SameLog limit limit') where
  reported := by
    rintro _ _ ⟨log, rfl, rfl⟩
    rfl
  push := by
    rintro _ _ d ⟨log, rfl, rfl⟩
    exact ⟨log ++ [d], push_ofLog _ _ _, push_ofLog _ _ _⟩
  extend := by
    rintro _ _ _ _ ⟨log, rfl, rfl⟩ ⟨other, rfl, rfl⟩
    exact ⟨log ++ other, extend_ofLog _ _ _, extend_ofLog _ _ _⟩

theorem Batch.SameLog.start (limit limit' : Nat) :
    SameLog limit limit' (.ofLimit limit) (.ofLimit limit') :=
  ⟨[], (ofLog_nil limit).symm, (ofLog_nil limit').symm⟩

def Likeness.limited (limit limit' : Nat) : Likeness :=
  .same (Batch.SameLog.growing limit limit') fun _ => True

namespace Session

variable (settings : Settings) (packages : Resolver)

/-!
# Two limits
-/

theorem loads_of_unreported {limit limit' : Nat} {r : Except LoadError ModuleTy × Session}
    (h : ∀ errors, r.1 ≠ .error (.failed errors)) : (Likeness.limited limit limit').Loads r r := by
  rcases r with ⟨r, σ⟩
  cases r with
  | ok m => exact .ok rfl ⟨rfl, trivial⟩
  | error e =>
      cases e with
      | cycle => exact .cycle ⟨rfl, trivial⟩
      | unavailable reason => exact .unavailable ⟨rfl, trivial⟩
      | failed errors => exact absurd rfl (h errors)

theorem compile_limited {limit limit' : Nat} {load load' : Loader}
    (hload : ∀ package σ,
      (Likeness.limited limit limit').Loads (load package σ) (load' package σ))
    (package : String) (files : List Source.File) (σ : Session) :
    (Likeness.limited limit limit').Loads
      (compile { settings with maxErrors := limit } load package files σ)
      (compile { settings with maxErrors := limit' } load' package files σ) := by
  have hall := Likeness.same_compileAll settings (Batch.SameLog.start limit limit')
    (fun package σ _ => hload package σ) (fun _ _ _ => trivial) files
    (σ := σ.beginPackage package) trivial
  apply hall.compile
  · rintro τ _ ⟨rfl, _⟩
    exact ⟨rfl, trivial⟩
  · rintro τ _ m m' ⟨rfl, _⟩ hm
    cases Likeness.eq_of_same _ ModuleTy.strip_nothing hm
    exact ⟨rfl, trivial⟩

theorem load_limited (limit limit' depth : Nat) (package : String) (σ : Session) :
    (Likeness.limited limit limit').Loads
      (load { settings with maxErrors := limit } packages depth package σ)
      (load { settings with maxErrors := limit' } packages depth package σ) := by
  induction depth generalizing package σ with
  | zero =>
      rcases load_cases settings packages package σ with ⟨files, h⟩ | ⟨r, hr, hload⟩
      · rw [h.load_zero, h.load_zero]
        exact .cycle ⟨rfl, trivial⟩
      · rw [hload limit, hload limit']
        exact loads_of_unreported hr
  | succ depth ih =>
      rcases load_cases settings packages package σ with ⟨files, h⟩ | ⟨r, hr, hload⟩
      · rw [h.load_succ, h.load_succ]
        exact compile_limited settings ih package files _
      · rw [hload limit, hload limit']
        exact loads_of_unreported hr

theorem check_limited (limit limit' : Nat) (file : Source.File) (σ : Session) :
    (Likeness.limited limit limit').Files
      (check { settings with maxErrors := limit } packages file σ)
      (check { settings with maxErrors := limit' } packages file σ) :=
  Likeness.same_runFile settings (Batch.SameLog.start limit limit')
    (fun package σ _ => load_limited settings packages limit limit' packages.depth package σ)
    (fun _ _ _ => trivial) file trivial

/-!
# All limits

The log of a run is what a run shows whose limit is the number of all its diagnostics.
-/

theorem eq_of_files_ok {limit limit' : Nat} {f : Typed.File} {τ : Session}
    {r : Except Batch Typed.File × Session}
    (h : (Likeness.limited limit limit').Files (.ok f, τ) r) : r = (.ok f, τ) := by
  cases h with
  | ok hf hτ => rw [Likeness.eq_of_same _ Typed.File.strip_nothing hf, hτ.1]

theorem exists_log_of_files_error {limit limit' : Nat} {batch : Batch} {τ : Session}
    {r : Except Batch Typed.File × Session}
    (h : (Likeness.limited limit limit').Files (.error batch, τ) r) :
    ∃ log, batch = .ofLog limit log ∧ r = (.error (.ofLog limit' log), τ) := by
  cases h with
  | error hbatch hτ =>
      rcases hbatch with ⟨log, hbatch, hbatch'⟩
      exact ⟨log, hbatch, by rw [hbatch', hτ.1]⟩
  | free h => exact h.elim

theorem exists_full {run : Nat → Except Batch Typed.File × Session}
    (h : ∀ limit limit', (Likeness.limited limit limit').Files (run limit)
      (run limit')) :
    ∃ (full : Except (List Diagnostic) Typed.File) (τ : Session), ∀ limit,
      run limit = (full.mapError (Batch.ofLog limit), τ) := by
  rcases hrun : run 0 with ⟨batch | f, τ⟩
  · rcases exists_log_of_files_error (hrun ▸ h 0 batch.total) with ⟨log, hbatch, hwhole⟩
    have htotal : batch.total = log.length := congrArg Batch.total hbatch
    rw [htotal] at hwhole
    refine ⟨.error log, τ, fun limit => ?_⟩
    rcases exists_log_of_files_error (hwhole ▸ h log.length limit) with ⟨log', hlog, hlimit⟩
    rw [hlimit, ← Batch.eq_of_ofLog_length hlog]
    rfl
  · exact ⟨.ok f, τ, fun limit => eq_of_files_ok (hrun ▸ h 0 limit)⟩

/-- The outcomes of checks of files, one after another, in a session. -/
def outcomes : List Source.File → Session → List (Except Batch Typed.File)
  | [], _ => []
  | file :: files, σ =>
      let checked := check settings packages file σ
      checked.1 :: outcomes files checked.2

theorem exists_outcomes_eq (files : List Source.File) (σ : Session) :
    ∃ (full : List (Except (List Diagnostic) Typed.File)) (τ : Session), ∀ limit,
      outcomes { settings with maxErrors := limit } packages files σ =
          full.map (Except.mapError (Batch.ofLog limit)) ∧
        files.foldl (fun σ file =>
          (check { settings with maxErrors := limit } packages file σ).2) σ = τ := by
  induction files generalizing σ with
  | nil => exact ⟨[], σ, fun _ => ⟨rfl, rfl⟩⟩
  | cons file files ih =>
      rcases exists_full fun limit limit' =>
        check_limited settings packages limit limit' file σ with ⟨full, τ, hcheck⟩
      rcases ih τ with ⟨rest, υ, hrest⟩
      refine ⟨full :: rest, υ, fun limit => ?_⟩
      have hlimit := hcheck limit
      rw [outcomes, List.foldl_cons, hlimit, (hrest limit).1]
      exact ⟨rfl, (hrest limit).2⟩

/--
The limit of reports only truncates them.  Whatever files are checked one after another, each of
them comes under every limit to the same typed file, or to a report that shows the beginning of one
and the same log, as far as the limit goes, and counts all of it; and the session comes to be the
same one, in which the same paths have been asked for in the same order.
-/
theorem limit_only_truncates (files : List Source.File) :
    ∃ (full : List (Except (List Diagnostic) Typed.File)) (τ : Session), ∀ limit,
      outcomes { settings with maxErrors := limit } packages files (start settings) =
          full.map (Except.mapError (Batch.ofLog limit)) ∧
        after { settings with maxErrors := limit } packages files = τ :=
  exists_outcomes_eq settings packages files (start settings)

end Session
end StaticTyping
