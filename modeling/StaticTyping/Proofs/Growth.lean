import StaticTyping.Proofs.Frame
import StaticTyping.Proofs.Loading

/-!
# What is compiled stays compiled

A session grows: what it has compiled it keeps, and while a package is under way nothing is compiled
in its name.  A load that succeeds leaves a package that is standard or compiled.
-/

namespace StaticTyping

open CheckM

theorem CheckM.importModule_eq_ok {i : Source.Import} {env : Env} {s t : State}
    {target : Typed.Import} (h : importModule i env s = (.ok target, t)) :
    ∃ m τ, env.load i.package.name s.session = (.ok m, τ) ∧
      t.session = { τ with symbols := τ.symbols.addModule env.file i.space m } := by
  change CheckM.bind (loadPackage i.package.name i.span.line) _ env s = _ at h
  unfold CheckM.bind loadPackage at h
  revert h
  rcases env.load i.package.name s.session with ⟨r, τ⟩
  intro h
  cases r with
  | ok m =>
      cases h
      exact ⟨m, τ, rfl, rfl⟩
  | error e => cases e <;> cases h

/-!
# Relations of sessions apart from their tables
-/

/-- A relation of the sessions before and after that changes of the tables respect. -/
structure Session.TableFree (R : Session → Session → Prop) : Prop where
  refl : ∀ σ, R σ σ
  trans : ∀ {σ τ υ}, R σ τ → R τ υ → R σ υ
  tables : ∀ (σ : Session) (t : SymbolTable), R σ { σ with symbols := t }

namespace Session.TableFree

variable {R : Session → Session → Prop} (H : TableFree R)

def frame (env : Env) (hload : ∀ package σ, R σ (env.load package σ).2) : Frame env {} where
  rel s t := R s.session t.session
  imports := True
  one _ := .inl trivial
  many _ := .inl trivial
  refl s := H.refl s.session
  trans := H.trans
  declare _ _ s := H.tables s.session _
  standard _ s := by
    rw [importStandard_apply]
    exact H.tables s.session _
  importModule _ i s := CheckM.session_importModule (P := R s.session)
    (hload i.package.name s.session) fun _ τ _ h => H.trans h (H.tables τ _)
  inScope h := H.trans (H.tables _ _) (H.trans h (H.tables _ _))
  inStmt h := h
  inExpr h := h
  inClass h := h
  report _ _ s := H.refl s.session

variable (settings : Settings) {load : Loader} (hload : ∀ package σ, R σ (load package σ).2)
include H hload

theorem runFile (file : Source.File) (σ : Session) :
    R σ (Checker.runFile settings load file σ).2 := by
  refine Frame.runFile H.refl H.trans fun {name env} henv => ?_
  rcases Option.map_eq_some_iff.mp henv with ⟨_, _, hpair⟩
  cases hpair
  exact ⟨H.frame _ hload, trivial, id⟩

theorem compileAll (files : List Source.File) (c : Compilation) (σ : Session) :
    R σ (Session.compileAll settings load files c σ).2 := by
  induction files generalizing c σ with
  | nil => exact H.refl σ
  | cons file files ih => exact H.trans (H.runFile settings hload file σ) (ih _ _)

end Session.TableFree

/-!
# Growth
-/

structure Session.Grows (σ τ : Session) : Prop where
  underWay : τ.underWay = σ.underWay
  kept : ∀ {package m}, σ.compiled.get? package = some m → τ.compiled.get? package = some m
  apart : ∀ {package}, package ∈ σ.underWay →
    τ.compiled.get? package = σ.compiled.get? package

namespace Session

theorem Grows.tableFree : TableFree Grows where
  refl _ := ⟨rfl, id, fun _ => rfl⟩
  trans h h' := ⟨h'.underWay.trans h.underWay, fun hm => h'.kept (h.kept hm),
    fun hway => (h'.apart (h.underWay ▸ hway)).trans (h.apart hway)⟩
  tables _ _ := ⟨rfl, id, fun _ => rfl⟩

theorem Grows.compile (settings : Settings) {load : Loader}
    (hload : ∀ package σ, Grows σ (load package σ).2) {package : String} (files : List Source.File)
    {σ : Session} (hnew : σ.compiled.get? package = none) (hidle : package ∉ σ.underWay) :
    σ.Grows (compile settings load package files σ).2 := by
  -- within the package it is one more under way, so that no load compiles it again
  have hall := tableFree.compileAll settings hload files (.start settings) (σ.beginPackage package)
  revert hall
  unfold Session.compile
  generalize compileAll settings load files (.start settings) (σ.beginPackage package) = done
  intro hall
  have hended : σ.Grows done.2.endPackage :=
    ⟨congrArg List.tail hall.underWay, hall.kept, fun h => hall.apart (List.mem_cons_of_mem _ h)⟩
  dsimp only
  split
  next m hm =>
    constructor
    · exact hended.underWay
    · intro other n hother
      have hne : other ≠ package := by
        rintro rfl
        rw [hnew] at hother
        cases hother
      exact (Dict.get?_insert_of_ne _ m hne).trans (hended.kept hother)
    · intro other hother
      have hne : other ≠ package := fun h => hidle (h ▸ hother)
      exact (Dict.get?_insert_of_ne _ m hne).trans (hended.apart hother)
  next => exact hended

variable (settings : Settings) (packages : Resolver)

theorem load_grows (depth : Nat) (package : String) (σ : Session) :
    σ.Grows (load settings packages depth package σ).2 := by
  apply load_induction (P := fun _ σ r => Grows σ r.2)
  · exact fun σ _ => Grows.tableFree.refl σ
  · exact fun _ => Grows.tableFree.refl _
  · exact fun _ σ => Grows.tableFree.refl σ
  · exact fun _ _ => ⟨rfl, id, fun _ => rfl⟩
  · intro depth package files σ ih hnew
    have h := Grows.compile settings ih files (σ := σ.request (settings.pathOf package))
      hnew.unknown hnew.idle
    exact ⟨h.underWay, h.kept, h.apart⟩

/-!
# Packages that are there
-/

/-- A package is there if it is a standard one or compiled. -/
def Has (σ : Session) (package : String) : Prop :=
  (Library.standard? package).isSome ∨ (σ.compiled.get? package).isSome

theorem Grows.has {σ τ : Session} (h : σ.Grows τ) {package : String} (hσ : σ.Has package) :
    τ.Has package := by
  apply hσ.imp_right
  intro hsome
  rcases Option.isSome_iff_exists.mp hsome with ⟨m, hm⟩
  rw [h.kept hm]
  rfl

theorem compiled_of_load_ok (depth : Nat) {package : String} {σ : Session} {m : ModuleTy}
    (hstandard : Library.standard? package = none)
    (h : (load settings packages depth package σ).1 = .ok m) :
    (load settings packages depth package σ).2.compiled.get? package = some m := by
  have hstep := load_step settings packages depth package σ
  generalize load settings packages depth package σ = r at h hstep ⊢
  cases hstep with
  | standard hsome =>
      rw [hstandard] at hsome
      cases hsome
  | known _ hknown =>
      cases h
      exact hknown
  | underWay => cases h
  | unavailable => cases h
  | tooDeep => cases h
  | compiled =>
      revert h
      unfold compile
      dsimp only
      split
      · intro h
        cases h
        exact Dict.get?_insert_self _ _ _
      · intro h
        cases h

theorem has_of_load_ok (depth : Nat) {package : String} {σ : Session} {m : ModuleTy}
    (h : (load settings packages depth package σ).1 = .ok m) :
    (load settings packages depth package σ).2.Has package := by
  cases hstandard : Library.standard? package with
  | some k => exact .inl (Option.isSome_iff_exists.mpr ⟨k, hstandard⟩)
  | none => exact .inr (Option.isSome_iff_exists.mpr
      ⟨m, compiled_of_load_ok settings packages depth hstandard h⟩)

end Session
end StaticTyping
