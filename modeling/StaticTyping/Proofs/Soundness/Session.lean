import StaticTyping.Proofs.Soundness.File

/-!
# Sessions

A file that is checked in a well-formed session leaves a well-formed session behind, and what it
exports is well formed.  So are the modules that are compiled from files, at any depth, and every
session that comes about by checks of files.
-/

namespace StaticTyping

open CheckM

variable {D : Discipline} (settings : Settings) {load : Loader}

/-!
# Files
-/

theorem Premises.of_load {env : Env} (hload : env.load.Sound D) :
    Premises D env.unshifted D.condition where
  load := hload
  ty h := ⟨h, fun _ _ _ _ _ => trivial⟩
  params h := h
  name _ := trivial
  importOne h := ⟨trivial, h⟩
  importMany h := ⟨trivial, h⟩

theorem Source.File.meets_of_mem {c : Source.Condition} : ∀ {ss : List Source.Stmt},
    Source.Met (Source.Stmt.allMeet c ss) → ∀ s ∈ ss, Source.Met (s.meets c)
  | [], _, _, hs => absurd hs List.not_mem_nil
  | _ :: _, h, s, hs => by
      rcases List.mem_cons.mp hs with rfl | hs
      · exact h.left
      · exact meets_of_mem h.right s hs

/-- The context that a file is met with in a session. -/
def Session.contextOf (σ : Session) (name : String) : Context :=
  ⟨σ.symbols.scopesOf (Checker.spaceOf σ name), none, σ.Shares (Checker.spaceOf σ name)⟩

theorem Session.WellFormed.initial {σ : Session} (hσ : σ.WellFormed D) :
    (Checker.initial settings σ).WellFormed D :=
  ⟨hσ, fun _ hc => absurd hc List.not_mem_nil⟩

theorem Checker.runFile_sound (hload : load.Sound D) {file : Source.File}
    (hfile : file.meets D.condition) {σ : Session} (hσ : σ.WellFormed D) :
    (runFile settings load file σ).2.WellFormed D ∧
      ∀ typed, (runFile settings load file σ).1 = .ok typed →
        typed.WellTyped D (σ.contextOf typed.name) := by
  have hstmts := Source.File.meets_of_mem hfile
  unfold runFile
  cases henv : envOf settings load σ file with
  | none => exact ⟨hσ, fun typed h => by cases h⟩
  | some pair =>
      rcases Option.map_eq_some_iff.mp henv with ⟨name, _, hpair⟩
      cases hpair
      have H : Premises D (Env.unshifted ⟨settings, file.path, spaceOf σ name, load⟩) D.condition :=
        .of_load hload
      have houtline := pass_outcome (H.outline hstmts) (hσ.initial settings)
      rw [Env.toEnv_unshifted] at houtline
      dsimp only
      split
      next errors s hrun =>
        rw [hrun] at houtline
        exact ⟨houtline.1, fun typed h => by cases h⟩
      next items s hrun =>
        rw [hrun] at houtline
        rcases houtline.2 items rfl with ⟨hs, houtlined⟩
        rcases houtlined.rows with ⟨_, _, _, _, hrows⟩
        have hfinish := pass_outcome (H.finish hstmts hrows) hs
        rw [Env.toEnv_unshifted] at hfinish
        split
        next errors s' hrun' =>
          rw [hrun'] at hfinish
          exact ⟨hfinish.1, fun typed h => by cases h⟩
        next stmts s' hrun' =>
          rw [hrun'] at hfinish
          refine ⟨hfinish.1, fun typed h => ?_⟩
          cases h
          exact houtlined.wellTyped (hfinish.2 stmts rfl).2 _ _

theorem Typed.Stmt.AllFinished.exists_of_mem {Γ Γ' : Context} {ts : List Typed.Stmt}
    (h : Typed.Stmt.AllFinished D Γ ts Γ') {t : Typed.Stmt} (ht : t ∈ ts) :
    ∃ Δ Δ', t.Finished D Δ Δ' := by
  induction h with
  | nil => exact absurd ht List.not_mem_nil
  | cons hfinished _ ih =>
      rcases List.mem_cons.mp ht with rfl | ht
      · exact ⟨_, _, hfinished⟩
      · exact ih ht

theorem Typed.Stmt.Finished.function_wellTyped {Γ Γ' : Context} {f : Typed.Function} {span : Span}
    (h : Typed.Stmt.Finished D Γ ⟨.function f, span⟩ Γ') : ∃ Δ, f.WellTyped D Δ := by
  cases h with
  | function hf => exact ⟨_, hf⟩
  | declared hkind => rcases hkind with h | h | h <;> cases h
  | other hkind => cases hkind

theorem Typed.Stmt.Finished.class_implemented {Γ Γ' : Context} {name : Ident} {c : ClassTy}
    {ms : List Typed.Function} {span : Span}
    (h : Typed.Stmt.Finished D Γ ⟨.classDecl name c ms, span⟩ Γ') : ∃ Δ, c.Implemented D Δ ms := by
  cases h with
  | classDecl hc => exact ⟨_, hc⟩
  | declared hkind => rcases hkind with h | h | h <;> cases h
  | other hkind => cases hkind

theorem Typed.File.WellTyped.exports {typed : Typed.File} {Γ : Context}
    (h : typed.WellTyped D Γ) : (Ty.moduleTy typed.exports).WellFormed D := by
  rcases h with ⟨_, _, _, _, hvalues, hfinished⟩
  -- functions and classes are well formed as they are finished, variables as they are declared
  refine .moduleTy (fun f hf => ?_) (fun c hc => ?_) fun v hv => ?_
  · rcases List.mem_filterMap.mp hf with ⟨⟨kind, span⟩, ht, hf⟩
    rcases hfinished.exists_of_mem ht with ⟨_, _, hdone⟩
    cases kind with
    | function g =>
        rcases hdone.function_wellTyped with ⟨_, ⟨hwell, _, _⟩⟩
        rcases Option.ite_none_right_eq_some.mp hf with ⟨_, hf⟩
        cases hf
        exact hwell
    | _ => cases hf
  · rcases List.mem_filterMap.mp hc with ⟨⟨kind, span⟩, ht, hc⟩
    rcases hfinished.exists_of_mem ht with ⟨_, _, hdone⟩
    cases kind with
    | classDecl name k ms =>
        rcases hdone.class_implemented with ⟨_, ⟨hwell, _, _, _⟩⟩
        rcases Option.ite_none_right_eq_some.mp hc with ⟨_, hc⟩
        cases hc
        exact hwell
    | _ => cases hc
  · rcases List.mem_filterMap.mp hv with ⟨⟨kind, span⟩, ht, hv⟩
    cases kind with
    | binding name isMutable annotated ty init =>
        have hmem : (⟨.binding name isMutable annotated ty init, span⟩ : Typed.Stmt) ∈
            Typed.Stmt.ofKind .values typed.stmts := List.mem_filter.mpr ⟨ht, rfl⟩
        rcases hvalues.exists_of_mem hmem with ⟨_, _, hstmt⟩
        cases hv
        cases hstmt with
        | binding hty => exact hty
    | _ => cases hv

/-!
# Packages
-/

theorem ModuleTy.WellFormed.append {m n : ModuleTy} (hm : (Ty.moduleTy m).WellFormed D)
    (hn : (Ty.moduleTy n).WellFormed D) : (Ty.moduleTy (m.append n)).WellFormed D := by
  cases hm with
  | atom h => cases h
  | moduleTy hfunctions hclasses hvalues =>
      cases hn with
      | atom h => cases h
      | moduleTy hfunctions' hclasses' hvalues' =>
          exact .moduleTy (List.forall_mem_append.mpr ⟨hfunctions, hfunctions'⟩)
            (List.forall_mem_append.mpr ⟨hclasses, hclasses'⟩)
            (List.forall_mem_append.mpr ⟨hvalues, hvalues'⟩)

def Compilation.WellFormed (D : Discipline) (c : Compilation) : Prop :=
  ∀ m, c.exports = some m → (Ty.moduleTy m).WellFormed D

theorem Compilation.WellFormed.add {c : Compilation} (hc : c.WellFormed D)
    {r : Except Batch Typed.File} (hr : ∀ typed, r = .ok typed →
      (Ty.moduleTy typed.exports).WellFormed D) : (c.add r).WellFormed D := by
  intro m hm
  cases r with
  | error errors => exact hc m hm
  | ok typed =>
      rcases c with ⟨errors, exports⟩
      cases exports with
      | none =>
          cases hm
          exact hr typed rfl
      | some n =>
          cases hm
          exact ModuleTy.WellFormed.append (hc n rfl) (hr typed rfl)

namespace Session

theorem compileAll_sound (hload : load.Sound D) {files : List Source.File}
    (hfiles : ∀ file ∈ files, file.meets D.condition) {c : Compilation} (hc : c.WellFormed D)
    {σ : Session} (hσ : σ.WellFormed D) :
    (compileAll settings load files c σ).1.WellFormed D ∧
      (compileAll settings load files c σ).2.WellFormed D := by
  induction files generalizing c σ with
  | nil => exact ⟨hc, hσ⟩
  | cons file files ih =>
      rcases List.forall_mem_cons.mp hfiles with ⟨hfile, hrest⟩
      rcases Checker.runFile_sound settings hload hfile hσ with ⟨hsession, htyped⟩
      exact ih hrest (hc.add fun typed h => (htyped typed h).exports) hsession

theorem compile_sound (hload : load.Sound D) {files : List Source.File}
    (hfiles : ∀ file ∈ files, file.meets D.condition) (package : String) {σ : Session}
    (hσ : σ.WellFormed D) :
    (compile settings load package files σ).2.WellFormed D ∧
      ∀ m, (compile settings load package files σ).1 = .ok m → (Ty.moduleTy m).WellFormed D := by
  have hbegun : (σ.beginPackage package).WellFormed D := ⟨hσ.symbols, hσ.compiled⟩
  obtain ⟨hdone, hsession⟩ := compileAll_sound settings hload hfiles (c := .start settings)
    (fun m hm => by cases hm) hbegun
  unfold compile
  dsimp only
  split
  next m hm =>
    have hwell : (Ty.moduleTy m).WellFormed D := by
      unfold Compilation.result at hm
      split at hm
      next n hn =>
        split at hm
        · cases hm
        · cases hm
          exact hdone _ hn
      next => cases hm
    refine ⟨⟨hsession.symbols, fun {name n} hn => ?_⟩, fun n hn => ?_⟩
    · simp only [Dict.get?_insert] at hn
      split at hn
      · cases hn
        exact hwell
      · exact hsession.compiled hn
    · cases hn
      exact hwell
  next => exact ⟨⟨hsession.symbols, hsession.compiled⟩, fun m hm => by cases hm⟩

theorem load_sound {packages : Resolver} (hpackages : packages.Meets D.condition)
    (depth : Nat) : (Session.load settings packages depth).Sound D := by
  have sound_of : ∀ {depth}, (∀ (package : String) (σ : Session), σ.WellFormed D →
      (Session.load settings packages depth package σ).2.WellFormed D ∧
        ∀ m, (Session.load settings packages depth package σ).1 = .ok m →
          (Ty.moduleTy m).WellFormed D) → (Session.load settings packages depth).Sound D :=
    fun h => ⟨load_releases settings packages _, load_staysApart settings packages _,
      fun package σ hσ => (h package σ hσ).1, fun hσ hm => (h _ _ hσ).2 _ hm,
      fun hm _ => load_of_standard _ hm⟩
  refine sound_of (load_induction (P := fun _ σ r => σ.WellFormed D → r.2.WellFormed D ∧
    ∀ m, r.1 = .ok m → (Ty.moduleTy m).WellFormed D) ?_ ?_ ?_ ?_ ?_ depth)
  · intro package m σ hstandard hσ
    refine ⟨hσ, fun n hn => ?_⟩
    cases hn
    exact Library.standard?_wellFormed hstandard
  · intro package m σ hknown hσ
    refine ⟨hσ, fun n hn => ?_⟩
    cases hn
    exact hσ.compiled hknown
  · exact fun package σ hσ => ⟨hσ, fun m hm => by cases hm⟩
  · exact fun σ _ hσ => ⟨⟨hσ.symbols, hσ.compiled⟩, fun m hm => by cases hm⟩
  · intro depth package files σ ih hnew hσ
    exact compile_sound settings (sound_of ih)
      (hpackages _ _ hnew.files) package ⟨hσ.symbols, hσ.compiled⟩

/-!
# Sessions
-/

theorem start_wellFormed : (start settings).WellFormed D :=
  ⟨Builtin.bindAll_wellFormed .empty _, fun h => by cases h⟩

theorem after_wellFormed {packages : Resolver} (hpackages : packages.Meets D.condition)
    {files : List Source.File} (hfiles : ∀ file ∈ files, file.meets D.condition) :
    (after settings packages files).WellFormed D :=
  after_induction (start_wellFormed settings) fun file hfile _ hσ =>
    (Checker.runFile_sound settings (load_sound settings hpackages _) (hfiles file hfile) hσ).1

theorem check_sound {packages : Resolver} (hpackages : packages.Meets D.condition)
    {files : List Source.File} (hfiles : ∀ file ∈ files, file.meets D.condition)
    {file : Source.File} (hfile : file.meets D.condition) {typed : Typed.File}
    (h : (check settings packages file (after settings packages files)).1 = .ok typed) :
    typed.WellTyped D ((after settings packages files).contextOf typed.name) :=
  (Checker.runFile_sound settings (load_sound settings hpackages _) hfile
    (after_wellFormed settings hpackages hfiles)).2 typed h

end Session
end StaticTyping
