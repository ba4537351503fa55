import Mathlib.Data.List.Nodup
import Mathlib.Data.List.Perm.Subperm
import StaticTyping.Proofs.Pairing.Same
import StaticTyping.Proofs.Release

/-!
# How deep compilations are nested

The packages under way are different ones, and the index has files for each of them.  Hence they are
no more than the index has paths, and loading without a bound on how deep compilations are nested
comes to an end.  This loading is a relation here: a package is compiled with a loader that comes to
an end wherever that package is the innermost one.  The bound that a session sets is never met.
-/

namespace StaticTyping

theorem Settings.pathOf_injective (settings : Settings) : Function.Injective settings.pathOf :=
  fun _ _ h => (String.append_right_inj _).mp h

namespace Session

variable (settings : Settings) (packages : PackageIndex)

/-!
# Packages under way
-/

/-- Packages that may be under way together: different ones, each with files. -/
structure Nested (way : List String) : Prop where
  distinct : way.Nodup
  available : ∀ p ∈ way, ∃ files, packages.filesAt (settings.pathOf p) = .ok files

variable {settings packages}

theorem Nested.nil : Nested settings packages [] :=
  ⟨.nil, fun _ hp => absurd hp List.not_mem_nil⟩

theorem Nested.cons {way : List String} (h : Nested settings packages way) {σ : Session}
    (hway : σ.underWay = way) {package : String} {files : List Source.File}
    (hnew : Uncompiled settings packages package σ files) :
    Nested settings packages (package :: way) where
  distinct := List.nodup_cons.mpr ⟨hway ▸ hnew.idle, h.distinct⟩
  available := List.forall_mem_cons.mpr ⟨⟨files, hnew.files⟩, h.available⟩

theorem Nested.length_le {way : List String} (h : Nested settings packages way) :
    way.length ≤ packages.size := by
  have hdistinct : (way.map settings.pathOf).Nodup :=
    List.Nodup.map settings.pathOf_injective h.distinct
  have hentries : way.map settings.pathOf ⊆ packages.entries.entries.map Prod.fst := by
    intro path hpath
    rcases List.mem_map.mp hpath with ⟨p, hp, rfl⟩
    rcases h.available p hp with ⟨files, hfiles⟩
    exact List.mem_map.mpr ⟨_, PackageIndex.mem_of_filesAt hfiles, rfl⟩
  calc way.length = (way.map settings.pathOf).length := (List.length_map _).symm
    _ ≤ (packages.entries.entries.map Prod.fst).length :=
        (List.subperm_of_subset hdistinct hentries).length_le
    _ = packages.size := List.length_map _

/-!
# Loaders that agree where some packages are under way
-/

def AgreeAt (way : List String) (load load' : Loader) : Prop :=
  ∀ package σ, σ.underWay = way →
    load package σ = load' package σ ∧ (load package σ).2.underWay = way

namespace AgreeAt

variable {way : List String} {load load' : Loader} (settings : Settings)

theorem agreeWhere (h : AgreeAt way load load') : AgreeWhere (·.underWay = way) load load' :=
  h

theorem compile {package : String} {σ : Session}
    (h : AgreeAt (package :: σ.underWay) load load') (files : List Source.File) :
    compile settings load package files σ = compile settings load' package files σ ∧
      (compile settings load package files σ).2.underWay = σ.underWay := by
  rcases h.agreeWhere.compileAll settings (fun _ _ h => h) files (σ := σ.beginPackage package) rfl
    with ⟨heq, hway⟩
  have hended := congrArg List.tail hway
  unfold Session.compile
  refine ⟨by rw [heq], ?_⟩
  dsimp only
  split
  · exact hended
  · exact hended

end AgreeAt

/-!
# Loading without a bound
-/

variable (settings packages)

inductive Ends (ok : List String → Prop) :
    Nat → String → Session → Except LoadError ModuleTy × Session → Prop where
  | standard {nested package σ m} : Library.standard? package = some m →
      Ends ok nested package σ (.ok m, σ)
  | known {nested package σ m} : Library.standard? package = none →
      σ.compiled.get? package = some m → Ends ok nested package σ (.ok m, σ)
  | underWay {nested package σ} : Library.standard? package = none →
      σ.compiled.get? package = none → package ∈ σ.underWay →
      Ends ok nested package σ (.error .cycle, σ)
  | unavailable {nested package σ reason} : Library.standard? package = none →
      σ.compiled.get? package = none → package ∉ σ.underWay →
      packages.filesAt (settings.pathOf package) = .error reason →
      Ends ok nested package σ
        (.error (.unavailable reason), σ.request (settings.pathOf package))
  | compiled {nested package σ files} {load : Loader} :
      Uncompiled settings packages package σ files → ok (package :: σ.underWay) →
      (∀ q τ, τ.underWay = package :: σ.underWay → Ends ok nested q τ (load q τ)) →
      Ends ok (nested + 1) package σ
        (compile settings load package files (σ.request (settings.pathOf package)))

/-- The check of a file that comes to an end without a bound, with an outcome. -/
def CheckEnds (ok : List String → Prop) (nested : Nat) (file : Source.File) (σ : Session)
    (r : Except Batch Typed.File × Session) : Prop :=
  ∃ load : Loader,
    (∀ package τ, τ.underWay = σ.underWay → Ends settings packages ok nested package τ
      (load package τ)) ∧ Checker.runFile settings load file σ = r

variable {settings packages}

theorem Ends.load_eq {ok : List String → Prop} {nested : Nat} {package : String} {σ : Session}
    {r : Except LoadError ModuleTy × Session} (h : Ends settings packages ok nested package σ r)
    {depth : Nat} (hdepth : nested ≤ depth) :
    load settings packages depth package σ = r ∧ r.2.underWay = σ.underWay := by
  induction h generalizing depth with
  | standard h => exact ⟨load_of_standard depth h, rfl⟩
  | known h hknown => exact ⟨load_of_known depth h hknown, rfl⟩
  | underWay h hknown hway => exact ⟨load_of_underWay depth h hknown hway, rfl⟩
  | unavailable h hknown hway hfiles =>
      exact ⟨load_of_unavailable depth h hknown hway hfiles, rfl⟩
  | @compiled nested package σ files load' hnew _ _ ih =>
      rcases Nat.exists_eq_add_of_le' hdepth with ⟨depth, rfl⟩
      have hagree : AgreeAt (package :: σ.underWay) load'
          (load settings packages (depth + nested)) := by
        intro q τ hτ
        rcases ih q τ hτ (Nat.le_add_left nested depth) with ⟨heq, hway⟩
        exact ⟨heq.symm, hway.trans hτ⟩
      rcases AgreeAt.compile settings (σ := σ.request (settings.pathOf package)) hagree files with
        ⟨heq, hway⟩
      exact ⟨(load_succ _ hnew.standard hnew.unknown hnew.idle hnew.files).trans heq.symm, hway⟩

theorem agreeAt_of_ends {ok : List String → Prop} {nested depth : Nat} {way : List String}
    {load' : Loader} (h : ∀ package σ, σ.underWay = way →
      Ends settings packages ok nested package σ (load' package σ)) (hdepth : nested ≤ depth) :
    AgreeAt way load' (load settings packages depth) := by
  intro package σ hσ
  rcases (h package σ hσ).load_eq hdepth with ⟨heq, hway⟩
  exact ⟨heq.symm, hway.trans hσ⟩

theorem ends_load {depth : Nat} {way : List String} (hway : Nested settings packages way)
    (hdepth : packages.size ≤ depth + way.length) (package : String) (σ : Session)
    (hσ : σ.underWay = way) :
    Ends settings packages (fun way => Nested settings packages way ∧ way.length ≤ packages.size)
      depth package σ (load settings packages depth package σ) := by
  revert way
  apply load_stepwise (P := fun depth package σ r => ∀ {way}, Nested settings packages way →
    packages.size ≤ depth + way.length → σ.underWay = way → Ends settings packages
      (fun way => Nested settings packages way ∧ way.length ≤ packages.size) depth package σ r)
  intro depth package σ r ih hstep way hway hdepth hσ
  cases hstep with
  | standard h => exact .standard h
  | known h hknown => exact .known h hknown
  | underWay h hknown hmem => exact .underWay h hknown hmem
  | unavailable h hknown hidle hfiles => exact .unavailable h hknown hidle hfiles
  | tooDeep hnew =>
      -- one package more would be under way than there are paths
      have hle := (hway.cons hσ hnew).length_le
      rw [List.length_cons] at hle
      omega
  | compiled hnew =>
      have hnested := hway.cons hσ hnew
      rw [← hσ] at hnested hdepth
      refine .compiled hnew ⟨hnested, hnested.length_le⟩ fun package τ => ih _ rfl package τ hnested ?_
      rw [List.length_cons]
      omega

theorem CheckEnds.eq {ok ok' : List String → Prop} {nested nested' : Nat} {file : Source.File}
    {σ : Session} {r r' : Except Batch Typed.File × Session}
    (h : CheckEnds settings packages ok nested file σ r)
    (h' : CheckEnds settings packages ok' nested' file σ r') : r = r' := by
  rcases h with ⟨load₁, hload, rfl⟩
  rcases h' with ⟨load₂, hload', rfl⟩
  have hagree := agreeAt_of_ends hload (Nat.le_max_left nested nested')
  have hagree' := agreeAt_of_ends hload' (Nat.le_max_right nested nested')
  have heq := hagree.agreeWhere.runFile settings (fun _ _ h => h) file rfl
  have heq' := hagree'.agreeWhere.runFile settings (fun _ _ h => h) file rfl
  exact heq.1.trans heq'.1.symm

variable (settings packages)

/--
Checking comes to an end, however the packages import each other.  The check of a file after any
others is a check without a bound, and every check without a bound has its outcome.  All the time
the packages under way are different ones that the index has files for, and no more of them are
nested than it has paths.
-/
theorem check_ends (files : List Source.File) (file : Source.File) :
    CheckEnds settings packages
        (fun way => Nested settings packages way ∧ way.length ≤ packages.size) packages.size file
        (after settings packages files)
        (check settings packages file (after settings packages files)) ∧
      ∀ r, (∃ ok nested,
        CheckEnds settings packages ok nested file (after settings packages files) r) ↔
          r = check settings packages file (after settings packages files) := by
  have hway := after_underWay settings packages files
  have hends : CheckEnds settings packages
      (fun way => Nested settings packages way ∧ way.length ≤ packages.size) packages.size file
      (after settings packages files)
      (check settings packages file (after settings packages files)) := by
    refine ⟨loader settings packages, fun package τ hτ => ?_, rfl⟩
    exact ends_load .nil (Nat.le_add_right _ _) package τ (hτ.trans hway)
  refine ⟨hends, fun r => ⟨?_, ?_⟩⟩
  · rintro ⟨ok, nested, h⟩
    exact h.eq hends
  · rintro rfl
    exact ⟨_, _, hends⟩

end Session
end StaticTyping
