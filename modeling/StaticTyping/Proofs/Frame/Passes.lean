import StaticTyping.Proofs.Placement
import StaticTyping.Proofs.Soundness.Session

/-!
# Files that meet a condition

A frame that imports need not respect is still one for files, provided that reports respect it and
all statements meet its condition.  Both passes go through the statements of the file only: a phase
keeps them, and what the second pass finishes stems from them.
-/

namespace StaticTyping

open CheckM

namespace Frame

variable {env : Env} {c : Source.Condition} {F : Frame env c} {α β : Type}

theorem Keeps.bind_of_returns {x : CheckM α} {f : α → CheckM β} {P : α → Prop} (hx : F.Keeps x)
    (hvalues : x.Returns P) (hf : ∀ a, P a → F.Keeps (f a)) : F.Keeps (x >>= f) := by
  intro s
  have hfirst := hx s
  rcases hrun : x env s with ⟨r, t⟩
  rw [hrun] at hfirst
  cases r with
  | ok a =>
      rw [bind_apply_of_ok hrun]
      exact F.trans hfirst (hf a (hvalues env s a (congrArg Prod.fst hrun)) t)
  | error e =>
      rw [bind_apply_of_error hrun]
      exact hfirst

theorem phase_of_mem (F : Frame env c) {phase : Checker.Phase} (hphase : phase ∈ Checker.phases)
    {s : Source.Stmt} (h : Source.Met (s.meets c)) {x : CheckM Item} (hx : phase s = some x) :
    F.Keeps x := by
  have hs : F.closure.Admits (s.meets c) := .inr h
  simp only [Checker.phases, List.mem_cons, List.not_mem_nil, or_false] at hphase
  rcases hphase with rfl | rfl | rfl | rfl | rfl
  · exact F.closure.importPhase hs hx
  · exact F.closure.interfacePhase hs hx
  · exact F.closure.classPhase hs hx
  · exact F.closure.functionPhase hs hx
  · exact F.closure.bindingPhase hs hx

theorem finishItem_of_stemsFrom {s : Source.Stmt} (h : Source.Met (s.meets c)) {item : Item}
    (hitem : item.StemsFrom s) : F.Keeps (Checker.finishItem item) := by
  have hs : F.closure.Admits (s.meets c) := .inr h
  cases hitem with
  | function sig => exact F.closure.functionDecl _ (.pure sig) (F.closure.blockOf _ hs.right) _
  | classDecl => exact F.closure.classWith _ hs.right (.pure _) _
  | checked typed => exact .pure typed
  | unchecked => exact F.closure.stmt s hs

variable (hreport : F.Reports)
include hreport

theorem Keeps.afterPhase {phase : Checker.Phase} (hphase : phase ∈ Checker.phases)
    {slots : List Slot} (h : ∀ slot ∈ slots, Source.Met (slot.stmt.meets c))
    {f : List Slot → CheckM α}
    (hf : ∀ slots, (∀ slot ∈ slots, Source.Met (slot.stmt.meets c)) → F.Keeps (f slots)) :
    F.Keeps (Checker.runPhase phase slots >>= f) :=
  Keeps.bind_of_returns
    (F.closure.runPhase (F.attempts hreport) fun slot hslot _ =>
      F.phase_of_mem hphase (h slot hslot))
    (Checker.runPhase_stmts (P := fun s => Source.Met (s.meets c)) h) hf

theorem outline_of_meets {ss : List Source.Stmt} (h : ∀ s ∈ ss, Source.Met (s.meets c)) :
    F.Keeps (Checker.outline ss) := by
  have hstart : ∀ slot ∈ ss.map (fun s => (⟨s, none⟩ : Slot)), Source.Met (slot.stmt.meets c) := by
    intro slot hslot
    rcases List.mem_map.mp hslot with ⟨s, hs, rfl⟩
    exact h s hs
  exact Keeps.afterPhase hreport (by simp [Checker.phases]) hstart fun _ h₁ =>
    (F.closure.declareAll _).bind fun _ =>
    Keeps.afterPhase hreport (by simp [Checker.phases]) h₁ fun _ h₂ =>
    Keeps.afterPhase hreport (by simp [Checker.phases]) h₂ fun _ h₃ =>
    Keeps.afterPhase hreport (by simp [Checker.phases]) h₃ fun _ h₄ =>
    Keeps.afterPhase hreport (by simp [Checker.phases]) h₄ fun _ _ => .pure _

theorem finish_of_stemsFrom {ss : List Source.Stmt} (h : ∀ s ∈ ss, Source.Met (s.meets c))
    {items : List Item} (hitems : List.Forall₂ Item.StemsFrom ss items) :
    F.Keeps (Checker.finish items) := by
  have hkeeps : ∀ item ∈ items, F.Keeps (Checker.finishItem item) := by
    induction hitems with
    | nil => exact fun item hitem => absurd hitem List.not_mem_nil
    | cons hfirst _ ih =>
        rcases List.forall_mem_cons.mp h with ⟨hs, hss⟩
        exact List.forall_mem_cons.mpr ⟨finishItem_of_stemsFrom hs hfirst, ih hss⟩
  apply Closure.Has.bind
  · apply Closure.Has.collect
    intro x hx
    rcases List.mem_map.mp hx with ⟨item, hitem, rfl⟩
    exact .attempt (F.attempts hreport) (hkeeps item hitem)
  · exact fun _ => .pure _

end Frame

theorem Frame.runFile_of_meets {settings : Settings} {load : Loader} {file : Source.File}
    {c : Source.Condition} (hfile : Source.Met (file.meets c)) {σ : Session} {P : Session → Prop}
    (hσ : P σ)
    (hframe : ∀ space, ∃ F : Frame ⟨settings, file.path, space, load⟩ c, F.Reports ∧
      ∀ {s t}, F.rel s t → P s.session → P t.session) :
    P (Checker.runFile settings load file σ).2 := by
  apply Checker.runFile_session hσ
  intro name env henv
  rcases Option.map_eq_some_iff.mp henv with ⟨_, _, hpair⟩
  cases hpair
  rcases hframe (Checker.spaceOf σ name) with ⟨F, hreport, hrel⟩
  have hmeets := Source.File.meets_of_mem hfile
  constructor
  · exact F.session_pass hreport hrel (Frame.outline_of_meets hreport hmeets) hσ
  · intro items s hrun hs
    have hitems := Placement.stemsFrom_of_pass (s := Checker.initial settings σ) rfl hrun
    exact F.session_pass hreport hrel (Frame.finish_of_stemsFrom hreport hmeets hitems) hs

end StaticTyping
