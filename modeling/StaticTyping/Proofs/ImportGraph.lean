import Mathlib.Logic.Relation
import StaticTyping.Proofs.Compiled
import StaticTyping.Proofs.Omission.File
import StaticTyping.Proofs.WellTyped

/-!
# The graph of imports

A package is compiled when all that it imports has been.  So the packages that a session has
compiled can be put in the order in which they were, each after all that it imports: nothing that
they import is missing, and no import leads back.
-/

namespace StaticTyping

open CheckM Source

def Source.File.imports (file : Source.File) (package : String) : Bool :=
  !file.meets (.without package)

/-- Whether some file of a package imports another one. -/
def Resolver.imports (packages : Resolver) (settings : Settings) (p q : String) : Bool :=
  match packages.filesAt (settings.pathOf p) with
  | .ok files => files.any (·.imports q)
  | .error _ => false

namespace Session

variable (settings : Settings) (packages : Resolver)

/-- A package that is not a standard one leads to those that its files import. -/
def LeadsTo (p q : String) : Prop :=
  Library.standard? p = none ∧ packages.imports settings p q

/-- The packages that are reached from a file by imports. -/
inductive Reaches (file : Source.File) : String → Prop where
  | direct {q} : file.imports q → Reaches file q
  | step {p q} : Reaches file p → LeadsTo settings packages p q → Reaches file q

/-!
# Orders of completion
-/

inductive Completed : List String → Prop where
  | nil : Completed []
  | cons {p order} : Library.standard? p = none → p ∉ order →
      (∀ q, packages.imports settings p q → (Library.standard? q).isSome ∨ q ∈ order) →
      Completed order → Completed (p :: order)

namespace Completed

variable {settings packages} {order : List String}

theorem standard (h : Completed settings packages order) {p : String} (hp : p ∈ order) :
    Library.standard? p = none := by
  induction h with
  | nil => exact absurd hp List.not_mem_nil
  | cons hstandard _ _ _ ih =>
      rcases List.mem_cons.mp hp with rfl | hp
      · exact hstandard
      · exact ih hp

theorem closed (h : Completed settings packages order) {p q : String} (hp : p ∈ order)
    (hq : packages.imports settings p q) : (Library.standard? q).isSome ∨ q ∈ order := by
  induction h with
  | nil => exact absurd hp List.not_mem_nil
  | cons _ _ himports _ ih =>
      rcases List.mem_cons.mp hp with rfl | hp
      · exact (himports q hq).imp_right (List.mem_cons_of_mem _)
      · exact (ih hp).imp_right (List.mem_cons_of_mem _)

theorem closed_path (h : Completed settings packages order) {p q : String}
    (hp : (Library.standard? p).isSome ∨ p ∈ order)
    (hpath : Relation.ReflTransGen (LeadsTo settings packages) p q) :
    (Library.standard? q).isSome ∨ q ∈ order := by
  induction hpath with
  | refl => exact hp
  | tail _ hstep ih =>
      apply h.closed _ hstep.2
      apply ih.resolve_left
      rw [hstep.1]
      exact Bool.false_ne_true

theorem acyclic (h : Completed settings packages order) {p : String} (hp : p ∈ order) :
    ¬Relation.TransGen (LeadsTo settings packages) p p := by
  induction h with
  | nil => exact absurd hp List.not_mem_nil
  | @cons first order hstandard hnew himports hcompleted ih =>
      rcases List.mem_cons.mp hp with rfl | hp
      · intro hcycle
        rcases Relation.TransGen.head'_iff.mp hcycle with ⟨q, hstep, hback⟩
        rcases hcompleted.closed_path (himports q hstep.2) hback with hsome | hmem
        · rw [hstandard] at hsome
          exact Bool.false_ne_true hsome
        · exact hnew hmem
      · exact ih hp

end Completed

def InOrder (σ : Session) : Prop :=
  ∃ order, Completed settings packages order ∧
    ∀ p, (σ.compiled.get? p).isSome ↔ p ∈ order

variable {settings packages}

theorem InOrder.tableFree :
    TableFree fun σ τ => InOrder settings packages σ → InOrder settings packages τ where
  refl _ h := h
  trans h h' hσ := h' (h hσ)
  tables _ _ h := h

theorem load_provides (depth : Nat) : (load settings packages depth).Provides where
  keeps package {σ _} h := (load_grows settings packages depth package σ).has h
  gives h := has_of_load_ok settings packages depth h

theorem has_of_runFile {load : Loader} (hload : load.Provides) {file : Source.File} {σ τ : Session}
    {f : Typed.File} (hrun : Checker.runFile settings load file σ = (.ok f, τ)) {q : String}
    (hq : file.imports q) : τ.Has q := by
  by_contra hlacks
  have hwithout := Checker.meets_without_of_runFile hload hrun hlacks
  unfold Source.File.imports at hq
  rw [hwithout] at hq
  exact Bool.false_ne_true hq

theorem Checked.grows {load : Loader} (hgrows : ∀ package σ, Grows σ (load package σ).2)
    {files : List Source.File} {σ τ : Session} {fs : List Typed.File}
    (h : Checked settings load files σ fs τ) : σ.Grows τ := by
  induction h with
  | nil => exact Grows.tableFree.refl _
  | @cons file _ σ _ _ _ _ hrun _ ih =>
      have hfirst := Grows.tableFree.runFile settings hgrows file σ
      rw [hrun] at hfirst
      exact Grows.tableFree.trans hfirst ih

theorem Checked.has {load : Loader} (hload : load.Provides)
    (hgrows : ∀ package σ, Grows σ (load package σ).2) {files : List Source.File} {σ τ : Session}
    {fs : List Typed.File} (h : Checked settings load files σ fs τ) {file : Source.File}
    (hfile : file ∈ files) {q : String} (hq : file.imports q) : τ.Has q := by
  induction h with
  | nil => exact absurd hfile List.not_mem_nil
  | cons hrun hrest ih =>
      rcases List.mem_cons.mp hfile with rfl | hfile
      · exact (hrest.grows hgrows).has (has_of_runFile hload hrun hq)
      · exact ih hfile

theorem InOrder.insert {σ : Session} (h : InOrder settings packages σ) {package : String}
    {files : List Source.File} (hstandard : Library.standard? package = none)
    (hnew : σ.compiled.get? package = none)
    (hfiles : packages.filesAt (settings.pathOf package) = .ok files)
    (hhas : ∀ file ∈ files, ∀ q, file.imports q → σ.Has q) (m : ModuleTy) (way : List String) :
    InOrder settings packages
      { σ with compiled := σ.compiled.insert package m, underWay := way } := by
  rcases h with ⟨order, hcompleted, horder⟩
  refine ⟨package :: order, .cons hstandard ?_ ?_ hcompleted, ?_⟩
  · intro hmem
    rw [← horder, hnew] at hmem
    exact Bool.false_ne_true hmem
  · intro q hq
    unfold Resolver.imports at hq
    rw [hfiles] at hq
    rcases List.any_eq_true.mp hq with ⟨file, hfile, hq⟩
    exact (hhas file hfile q hq).imp_right (horder q).mp
  · intro p
    rw [List.mem_cons, ← horder]
    by_cases hp : p = package
    · subst hp
      simp only [Dict.get?_insert_self, Option.isSome_some, true_or]
    · simp only [Dict.get?_insert_of_ne _ _ hp, hp, false_or]

theorem load_inOrder (depth : Nat) (package : String) (σ : Session)
    (h : InOrder settings packages σ) :
    InOrder settings packages (load settings packages depth package σ).2 := by
  revert h
  apply load_induction
    (P := fun _ σ r => InOrder settings packages σ → InOrder settings packages r.2)
  · exact fun _ _ h => h
  · exact fun _ h => h
  · exact fun _ _ h => h
  · exact fun _ _ h => h
  · intro depth package files σ ih hnew h
    have hgrows := Grows.tableFree.compileAll settings (load_grows settings packages depth) files
      (.start settings) ((σ.request (settings.pathOf package)).beginPackage package)
    have hdone := InOrder.tableFree.compileAll settings ih files (.start settings)
      ((σ.request (settings.pathOf package)).beginPackage package) h
    rcases compile_cases package files (σ.request (settings.pathOf package)) rfl with
      ⟨m, fs, hcompile, hchecked, _⟩ | ⟨errors, hcompile⟩
    · rw [hcompile]
      apply hdone.insert hnew.standard _ hnew.files
      · intro file hfile q hq
        exact hchecked.has (load_provides depth) (load_grows settings packages depth) hfile hq
      · exact (hgrows.apart List.mem_cons_self).trans hnew.unknown
    · rw [hcompile]
      exact hdone

theorem check_inOrder (file : Source.File) (σ : Session) (h : InOrder settings packages σ) :
    InOrder settings packages (check settings packages file σ).2 :=
  InOrder.tableFree.runFile settings (load_inOrder packages.depth) file σ h

theorem after_inOrder (files : List Source.File) :
    InOrder settings packages (after settings packages files) := by
  apply after_induction
  · exact ⟨[], .nil, fun p => iff_of_false Bool.false_ne_true List.not_mem_nil⟩
  · exact fun file _ σ h => check_inOrder file σ h

theorem InOrder.standard {σ : Session} (h : InOrder settings packages σ) {p : String}
    (hp : (σ.compiled.get? p).isSome) : Library.standard? p = none := by
  rcases h with ⟨order, hcompleted, horder⟩
  exact hcompleted.standard ((horder p).mp hp)

theorem InOrder.has_of_leadsTo {σ : Session} (h : InOrder settings packages σ) {p q : String}
    (hp : σ.Has p) (hstep : LeadsTo settings packages p q) : σ.Has q := by
  rcases h with ⟨order, hcompleted, horder⟩
  rcases hp with hsome | hcompiled
  · rw [hstep.1] at hsome
    exact absurd hsome Bool.false_ne_true
  · exact (hcompleted.closed ((horder p).mp hcompiled) hstep.2).imp_right (horder q).mpr

theorem InOrder.acyclic {σ : Session} (h : InOrder settings packages σ) {p : String}
    (hp : σ.Has p) : ¬Relation.TransGen (LeadsTo settings packages) p p := by
  rcases h with ⟨order, hcompleted, horder⟩
  rcases hp with hsome | hcompiled
  · intro hcycle
    rcases Relation.TransGen.head'_iff.mp hcycle with ⟨q, hstep, _⟩
    rw [hstep.1] at hsome
    exact Bool.false_ne_true hsome
  · exact hcompleted.acyclic ((horder p).mp hcompiled)

/--
Of the packages that a session has compiled, none imports one that is neither standard nor compiled,
none is a standard one, and none leads back to itself.  When a file is then checked with success,
all packages that it reaches are standard or compiled, and none of them leads back to itself.
-/
theorem compiled_closed_and_acyclic (settings : Settings) (packages : Resolver)
    (files : List Source.File) :
    (∀ p q, ((after settings packages files).compiled.get? p).isSome →
      packages.imports settings p q → (after settings packages files).Has q) ∧
    (∀ p, ((after settings packages files).compiled.get? p).isSome →
      Library.standard? p = none ∧ ¬Relation.TransGen (LeadsTo settings packages) p p) ∧
    ∀ file f τ, check settings packages file (after settings packages files) = (.ok f, τ) →
      ∀ p, Reaches settings packages file p →
        τ.Has p ∧ ¬Relation.TransGen (LeadsTo settings packages) p p := by
  have horder : InOrder settings packages (after settings packages files) := after_inOrder files
  refine ⟨fun p q hp hq => ?_, fun p hp => ⟨horder.standard hp, horder.acyclic (.inr hp)⟩, ?_⟩
  · exact horder.has_of_leadsTo (.inr hp) ⟨horder.standard hp, hq⟩
  · intro file f τ hcheck p hp
    have hafter : InOrder settings packages τ := by
      have h := check_inOrder file _ horder
      rw [hcheck] at h
      exact h
    have hhas : τ.Has p := by
      induction hp with
      | direct hq => exact has_of_runFile (load_provides packages.depth) hcheck hq
      | step _ hstep ih => exact hafter.has_of_leadsTo ih hstep
    exact ⟨hhas, hafter.acyclic hhas⟩

end Session

namespace Sample

def chain : PackageIndex :=
  ⟨(Dict.empty.insert "src/base" (.files [file "base"
      [stmt (.importOne (ident "aura/strings") none), basket]])).insert "src/top"
    (.files [file "top" [stmt (.importOne (ident "base") none)]])⟩

def chainFile : Source.File :=
  file "main" [stmt (.importOne (ident "top") none)]

end Sample

theorem Session.compiled_closed_and_acyclic_chain :
    ∃ f τ, check {} Sample.chain Sample.chainFile (after {} Sample.chain [Sample.chainFile]) =
        (.ok f, τ) ∧
      ((after {} Sample.chain [Sample.chainFile]).compiled.get? "top").isSome ∧
      Resolver.imports Sample.chain {} "top" "base" ∧
      (after {} Sample.chain [Sample.chainFile]).Has "base" ∧
      ¬Relation.TransGen (LeadsTo {} Sample.chain) "top" "top" ∧
      Reaches {} Sample.chain Sample.chainFile "aura/strings" ∧ τ.Has "aura/strings" := by
  have h := compiled_closed_and_acyclic {} Sample.chain [Sample.chainFile]
  have htop : ((after {} Sample.chain [Sample.chainFile]).compiled.get? "top").isSome := rfl
  have himports : Resolver.imports Sample.chain {} "top" "base" := rfl
  have hreaches : Reaches {} Sample.chain Sample.chainFile "aura/strings" := by
    have htop : Reaches {} Sample.chain Sample.chainFile "top" := .direct rfl
    have hbase : Reaches {} Sample.chain Sample.chainFile "base" := htop.step ⟨rfl, himports⟩
    exact hbase.step ⟨rfl, rfl⟩
  exact ⟨_, _, rfl, htop, himports, h.1 "top" "base" htop himports, (h.2.1 "top" htop).2, hreaches,
    (h.2.2 Sample.chainFile _ _ rfl "aura/strings" hreaches).1⟩

end StaticTyping
