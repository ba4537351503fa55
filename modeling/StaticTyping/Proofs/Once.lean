import Mathlib.Logic.Relation
import StaticTyping.Proofs.Growth
import StaticTyping.Proofs.Nesting
import StaticTyping.Proofs.WellTyped

/-!
# A package is compiled once

`Session.Step` lists what can happen to a session while files are checked: its tables change, a
package is asked for in vain, a package begins to be compiled, and the innermost one under way comes
to its end, with or without exports.  `Session.Later` is a run of such steps.  Checks are runs, and
whenever they ask for a package, they do so in the course of one.  A package under way has not been
compiled, so that no step changes what has been: the first exports of a package are its last.
-/

namespace StaticTyping
namespace Session

variable (settings : Settings) (packages : Resolver)

/-!
# Steps and runs
-/

inductive Step : Session → Session → Prop where
  | tables (σ : Session) (t : SymbolTable) : Step σ { σ with symbols := t }
  | refuse {σ package} : Library.standard? package = none → σ.compiled.get? package = none →
      package ∉ σ.underWay → Step σ (σ.request (settings.pathOf package))
  | start {σ package files} : Uncompiled settings packages package σ files →
      Step σ ((σ.request (settings.pathOf package)).beginPackage package)
  | fail (σ : Session) : Step σ σ.endPackage
  | finish {σ package way} (m : ModuleTy) : σ.underWay = package :: way →
      Step σ { σ.endPackage with compiled := σ.compiled.insert package m }

/-- One session comes after another. -/
abbrev Later : Session → Session → Prop :=
  Relation.ReflTransGen (Step settings packages)

/--
A relation that holds between a session and those that checks lead to from there.  It also reaches
every session in which they ask for a package: whatever a loader does elsewhere makes no difference
to a file or to the files of a package.
-/
structure Timeline (later : Session → Session → Prop) : Prop where
  refl : ∀ σ, later σ σ
  trans : ∀ {σ τ υ}, later σ τ → later τ υ → later σ υ
  load : ∀ depth package σ, later σ (load settings packages depth package σ).2
  check : ∀ file σ, later σ (check settings packages file σ).2
  asks : ∀ file {σ} {ask : Loader},
    (∀ package τ, later σ τ → ask package τ = loader settings packages package τ) →
      Checker.runFile settings ask file σ = Session.check settings packages file σ
  begins : ∀ {package σ files}, Uncompiled settings packages package σ files →
    later σ ((σ.request (settings.pathOf package)).beginPackage package)
  asksWithin : ∀ {depth package σ files} {ask : Loader},
    Uncompiled settings packages package σ files →
    (∀ q τ, later ((σ.request (settings.pathOf package)).beginPackage package) τ →
      ask q τ = Session.load settings packages depth q τ) →
    compile settings ask package files (σ.request (settings.pathOf package)) =
      Session.load settings packages (depth + 1) package σ

variable {settings packages}

namespace Later

theorem tableFree : TableFree (Later settings packages) where
  refl _ := .refl
  trans := .trans
  tables σ t := .single (.tables σ t)

theorem apartFromTables (σ : Session) : ApartFromTables (Later settings packages σ) :=
  fun τ t hτ => hτ.tail (.tables τ t)

theorem compile {package : String} {files : List Source.File} {σ : Session} {ask : Loader}
    (hnew : Uncompiled settings packages package σ files)
    (hask : ∀ q τ, Later settings packages τ (ask q τ).2)
    (hgrows : ∀ q τ, Grows τ (ask q τ).2) :
    Later settings packages σ
      (compile settings ask package files (σ.request (settings.pathOf package))).2 := by
  have hfiles := tableFree.compileAll settings hask files (.start settings)
    ((σ.request (settings.pathOf package)).beginPackage package)
  have hway := (Grows.tableFree.compileAll settings hgrows files (.start settings)
    ((σ.request (settings.pathOf package)).beginPackage package)).underWay
  have hdone := Relation.ReflTransGen.head (Step.start hnew) hfiles
  rcases compile_cases package files (σ.request (settings.pathOf package))
    (Eq.refl (Session.compileAll settings ask files (.start settings) _)) with
    ⟨m, _, hok, _⟩ | ⟨errors, herror⟩
  · rw [hok]
    exact hdone.tail (.finish m hway)
  · rw [herror]
    exact hdone.tail (.fail _)

theorem load (depth : Nat) (package : String) (σ : Session) :
    Later settings packages σ (load settings packages depth package σ).2 := by
  apply load_stepwise (P := fun _ _ σ r => Later settings packages σ r.2)
  intro depth package σ r ih hstep
  cases hstep with
  | standard => exact .refl
  | known => exact .refl
  | underWay => exact .refl
  | unavailable h hunknown hidle => exact .single (.refuse h hunknown hidle)
  | tooDeep h => exact .single (.refuse h.standard h.unknown h.idle)
  | compiled hnew => exact compile hnew (ih _ rfl) (load_grows settings packages _)

theorem agreeWhere {σ : Session} {depth : Nat} {ask : Loader}
    (h : ∀ package τ, Later settings packages σ τ →
      ask package τ = Session.load settings packages depth package τ) :
    AgreeWhere (Later settings packages σ) ask (Session.load settings packages depth) := by
  intro package τ hτ
  rw [h package τ hτ]
  exact ⟨rfl, hτ.trans (load depth package τ)⟩

theorem timeline : Timeline settings packages (Later settings packages) where
  refl _ := .refl
  trans := .trans
  load := load
  check file σ := tableFree.runFile settings (load packages.depth) file σ
  asks file σ _ h := ((agreeWhere h).runFile settings (apartFromTables σ) file .refl).1
  begins hnew := .single (.start hnew)
  asksWithin {depth package σ files ask} hnew h := by
    have hall := ((agreeWhere h).compileAll settings (apartFromTables _) files .refl).1
    rw [load_succ depth hnew.standard hnew.unknown hnew.idle hnew.files]
    unfold Session.compile
    rw [hall]

end Later

/-!
# What has been compiled stays
-/

structure Coherent (settings : Settings) (σ : Session) : Prop where
  distinct : σ.underWay.Nodup
  uncompiled : ∀ package ∈ σ.underWay, σ.compiled.get? package = none
  foreign : ∀ path ∈ σ.requested, ∃ package, path = settings.pathOf package ∧
    Library.standard? package = none

theorem coherent_start (settings : Settings) : Coherent settings (start settings) :=
  ⟨.nil, fun _ h => absurd h List.not_mem_nil, fun _ h => absurd h List.not_mem_nil⟩

theorem Coherent.request {σ : Session} (h : Coherent settings σ) {package : String}
    (hstandard : Library.standard? package = none) :
    Coherent settings (σ.request (settings.pathOf package)) where
  distinct := h.distinct
  uncompiled := h.uncompiled
  foreign := List.forall_mem_cons.mpr ⟨⟨package, rfl, hstandard⟩, h.foreign⟩

namespace Step

variable {σ τ : Session}

theorem coherent (h : Step settings packages σ τ) (hσ : Coherent settings σ) :
    Coherent settings τ := by
  cases h with
  | tables => exact ⟨hσ.distinct, hσ.uncompiled, hσ.foreign⟩
  | refuse hstandard => exact hσ.request hstandard
  | start hnew =>
      have hrequest := hσ.request hnew.standard
      constructor
      · exact List.nodup_cons.mpr ⟨hnew.idle, hrequest.distinct⟩
      · exact List.forall_mem_cons.mpr ⟨hnew.unknown, hrequest.uncompiled⟩
      · exact hrequest.foreign
  | fail =>
      exact ⟨hσ.distinct.tail, fun q hq => hσ.uncompiled q (List.mem_of_mem_tail hq), hσ.foreign⟩
  | @finish package way m hway =>
      have hdistinct := hσ.distinct
      rw [hway, List.nodup_cons] at hdistinct
      have htail : σ.underWay.tail = way := congrArg List.tail hway
      constructor
      · exact hσ.distinct.tail
      · intro q hq
        have hmem : q ∈ way := htail ▸ hq
        have hne : q ≠ package := fun heq => hdistinct.1 (heq ▸ hmem)
        exact (Dict.get?_insert_of_ne _ m hne).trans
          (hσ.uncompiled q (List.mem_of_mem_tail hq))
      · exact hσ.foreign

theorem kept (h : Step settings packages σ τ) (hσ : Coherent settings σ) {package : String}
    {m : ModuleTy} (hm : σ.compiled.get? package = some m) :
    τ.compiled.get? package = some m := by
  cases h with
  | tables => exact hm
  | refuse => exact hm
  | start => exact hm
  | fail => exact hm
  | @finish other way n hway =>
      have hne : package ≠ other := by
        intro heq
        have hnone := hσ.uncompiled other (hway ▸ List.mem_cons_self)
        rw [← heq, hm] at hnone
        cases hnone
      exact (Dict.get?_insert_of_ne _ n hne).trans hm

end Step

namespace Later

variable {σ τ : Session}

theorem coherent (h : Later settings packages σ τ) (hσ : Coherent settings σ) :
    Coherent settings τ := by
  induction h with
  | refl => exact hσ
  | tail _ hstep ih => exact hstep.coherent ih

theorem kept (h : Later settings packages σ τ) (hσ : Coherent settings σ) {package : String}
    {m : ModuleTy} (hm : σ.compiled.get? package = some m) :
    τ.compiled.get? package = some m := by
  induction h with
  | refl => exact hm
  | tail hrun hstep ih => exact hstep.kept (coherent hrun hσ) ih

theorem load_again {depth : Nat} {package : String} {m : ModuleTy} (hσ : Coherent settings σ)
    (hload : Session.load settings packages depth package σ = (.ok m, τ)) {υ : Session}
    (h : Later settings packages τ υ) (again : Nat) :
    Session.load settings packages again package υ = (.ok m, υ) := by
  cases hstandard : Library.standard? package with
  | some k =>
      rw [load_of_standard depth hstandard] at hload
      cases hload
      exact load_of_standard again hstandard
  | none =>
      have hcompiled := compiled_of_load_ok settings packages depth hstandard
        (congrArg Prod.fst hload)
      have hτ : Coherent settings τ := by
        have hlater : Later settings packages σ
            (Session.load settings packages depth package σ).2 := load depth package σ
        rw [hload] at hlater
        exact coherent hlater hσ
      rw [hload] at hcompiled
      exact load_of_known again hstandard (kept h hτ hcompiled)

end Later

theorem Coherent.not_requested {σ : Session} (h : Coherent settings σ) {package : String}
    {m : ModuleTy} (hstandard : Library.standard? package = some m) :
    settings.pathOf package ∉ σ.requested := by
  intro hmem
  rcases h.foreign _ hmem with ⟨q, hpath, hnone⟩
  rw [← settings.pathOf_injective hpath, hstandard] at hnone
  cases hnone

/-!
# Paths are asked for once
-/

structure Accounted (settings : Settings) (σ : Session) : Prop where
  once : σ.requested.Nodup
  account : ∀ path ∈ σ.requested, ∃ package, path = settings.pathOf package ∧
    ((σ.compiled.get? package).isSome ∨ package ∈ σ.underWay)

theorem Accounted.start (settings : Settings) : Accounted settings (start settings) :=
  ⟨.nil, fun _ h => absurd h List.not_mem_nil⟩

theorem Accounted.apartFromTables : ApartFromTables (Accounted settings) :=
  fun _ _ h => ⟨h.once, h.account⟩

theorem Accounted.begin {σ : Session} (h : Accounted settings σ) {package : String}
    {files : List Source.File} (hnew : Uncompiled settings packages package σ files) :
    Accounted settings ((σ.request (settings.pathOf package)).beginPackage package) where
  once := by
    apply List.nodup_cons.mpr ⟨?_, h.once⟩
    intro hmem
    rcases h.account _ hmem with ⟨q, hpath, hq⟩
    rw [← settings.pathOf_injective hpath, hnew.unknown] at hq
    exact hq.elim (fun hsome => nomatch hsome) hnew.idle
  account := by
    intro path hmem
    rcases List.mem_cons.mp hmem with rfl | hmem
    · exact ⟨package, rfl, .inr List.mem_cons_self⟩
    · rcases h.account path hmem with ⟨q, hpath, hq⟩
      exact ⟨q, hpath, hq.imp_right (List.mem_cons_of_mem _)⟩

theorem Accounted.finish {σ : Session} (h : Accounted settings σ) {package : String}
    {way : List String} (hway : σ.underWay = package :: way) (m : ModuleTy) :
    Accounted settings { σ.endPackage with compiled := σ.compiled.insert package m } where
  once := h.once
  account := by
    intro path hmem
    rcases h.account path hmem with ⟨q, hpath, hq⟩
    refine ⟨q, hpath, ?_⟩
    show ((σ.compiled.insert package m).get? q).isSome ∨ q ∈ σ.underWay.tail
    rw [Dict.get?_insert]
    rw [hway] at hq ⊢
    by_cases heq : q = package
    · simp [heq]
    · simpa [heq] using hq

theorem Accounted.compile {load : Loader} (hload : load.Keeps (Accounted settings))
    (hgrows : ∀ package τ, Grows τ (load package τ).2) {package : String}
    {files : List Source.File} {σ τ : Session} {m : ModuleTy} (hσ : Accounted settings σ)
    (hnew : Uncompiled settings packages package σ files)
    (hrun : compile settings load package files (σ.request (settings.pathOf package)) =
      (.ok m, τ)) : Accounted settings τ := by
  have hway := (Grows.tableFree.compileAll settings hgrows files (.start settings)
    ((σ.request (settings.pathOf package)).beginPackage package)).underWay
  rcases compile_cases package files (σ.request (settings.pathOf package))
    (Eq.refl (compileAll settings load files (.start settings) _)) with
    ⟨n, _, hok, hchecked, _⟩ | ⟨errors, herror⟩
  · rw [hok] at hrun
    cases hrun
    exact (hload.checked apartFromTables hchecked (hσ.begin hnew)).finish hway m
  · rw [herror] at hrun
    cases hrun

theorem Accounted.keeps (depth : Nat) :
    (load settings packages depth).Keeps (Accounted settings) := by
  intro package σ
  apply load_stepwise (P := fun _ _ σ r =>
    ∀ m τ, Accounted settings σ → r = (.ok m, τ) → Accounted settings τ)
  intro depth package σ r ih hstep m τ hσ hr
  cases hstep with
  | standard | known =>
      cases hr
      exact hσ
  | underWay | unavailable | tooDeep => cases hr
  | compiled hnew => exact hσ.compile (ih _ rfl) (load_grows settings packages _) hnew hr

/-!
# The theorem
-/

/--
A package that has been compiled is never compiled again.  Whenever it has been loaded with success
in the course of a session, every load after that, however deep compilations are nested and whatever
else has gone wrong in between, gives the same module and does nothing else; in particular it asks
for no files.  Standard packages are never asked for.  If all files of a session are checked with
success, then no path is asked for twice.
-/
theorem compiled_once (settings : Settings) (packages : Resolver) :
    Timeline settings packages (Later settings packages) ∧
    (∀ σ τ depth package m, Later settings packages (start settings) σ →
      load settings packages depth package σ = (.ok m, τ) →
      ∀ υ again, Later settings packages τ υ →
        load settings packages again package υ = (.ok m, υ)) ∧
    (∀ σ package m, Later settings packages (start settings) σ →
      Library.standard? package = some m →
      settings.pathOf package ∉ σ.requested ∧
        ∀ depth, load settings packages depth package σ = (.ok m, σ)) ∧
    ∀ files typed τ,
      Checked settings (loader settings packages) files (start settings) typed τ →
        τ.requested.Nodup := by
  have hcoherent := coherent_start settings
  refine ⟨Later.timeline, ?_, ?_, ?_⟩
  · intro σ τ depth package m hσ hload υ again hυ
    exact Later.load_again (Later.coherent hσ hcoherent) hload hυ again
  · intro σ package m hσ hstandard
    exact ⟨(Later.coherent hσ hcoherent).not_requested hstandard,
      fun depth => load_of_standard depth hstandard⟩
  · intro files typed τ hchecked
    have hkeeps : (loader settings packages).Keeps (Accounted settings) :=
      Accounted.keeps packages.depth
    exact (hkeeps.checked Accounted.apartFromTables hchecked (.start settings)).once

/-- Two files that import the same package: its path is asked for by the first of them. -/
theorem compiled_once_sums :
    ∃ typed τ, Checked {} (loader {} Sample.sums) [Sample.sumFile, Sample.sumFile] (start {})
        typed τ ∧
      τ.requested = ["src/sums"] ∧ τ.requested.Nodup := by
  have hchecked : Checked {} (loader {} Sample.sums) [Sample.sumFile, Sample.sumFile] (start {})
      _ _ := .cons rfl (.cons rfl .nil)
  exact ⟨_, _, hchecked, rfl, (compiled_once {} Sample.sums).2.2.2 _ _ _ hchecked⟩

end Session
end StaticTyping
