import StaticTyping.Proofs.Omission.Tree
import StaticTyping.Proofs.Order.Passes

/-!
# Files without an import

Each pass over a file goes through to its end.  Nothing is reported in the end, so that every
statement has been checked: a part of it in the first pass, and the rest in the second.
-/

namespace StaticTyping

open CheckM Source

/-- What the first pass has kept of a statement, and that the rest of it does not import a
package. -/
inductive Item.Covers (package : String) : Source.Stmt → Item → Prop where
  | function {d body span sig} : Met (d.meets (.without package)) →
      Covers package ⟨.function d body, span⟩ (.function d body span sig)
  | classDecl {d span sig} : sig.methods.length = d.methods.length →
      ((∀ p ∈ d.params, ∀ e ∈ p.default, Met (e.meets (.without package))) ∧
        ∀ m ∈ d.methods, Met (m.head.meets (.without package))) →
      Covers package ⟨.classDecl d, span⟩ (.classDecl d span sig)
  | checked {s typed} : Met (s.meets (.without package)) → Covers package s (.checked typed)
  | unchecked {s} : Covers package s (.unchecked s)

def Slot.Covers (package : String) (slot : Slot) : Prop :=
  ∀ item, slot.item = some item → item.Covers package slot.stmt

namespace Omission

variable {O : Omission}

def Covers (O : Omission) (phase : Checker.Phase) : Prop :=
  ∀ s x, phase s = some x → O.Omits x (Item.Covers O.package s)

theorem checked (s : Source.Stmt) :
    O.Omits (Item.checked <$> Checker.stmt s) (Item.Covers O.package s) :=
  (stmt s).map fun _ h => .checked h

theorem importPhase : O.Covers Checker.importPhase := by
  intro s x hx
  unfold Checker.importPhase at hx
  split at hx
  next imported alias? span =>
    cases hx
    exact checked ⟨.importOne imported alias?, span⟩
  next imports span =>
    cases hx
    exact checked ⟨.importMany imports, span⟩
  next => cases hx

theorem interfacePhase : O.Covers Checker.interfacePhase := by
  intro s x hx
  unfold Checker.interfacePhase at hx
  split at hx
  next d span =>
    cases hx
    exact checked ⟨.interfaceDecl d, span⟩
  next => cases hx

theorem classPhase : O.Covers Checker.classPhase := by
  intro s x hx
  unfold Checker.classPhase at hx
  split at hx
  next d span =>
    cases hx
    exact (classOf d).bind fun sig => keepsThen (O.frame.declare _ _) fun _ =>
      .pure fun h => .classDecl h.1 h.2
  next => cases hx

theorem functionPhase : O.Covers Checker.functionPhase := by
  intro s x hx
  unfold Checker.functionPhase at hx
  split at hx
  next d body span =>
    cases hx
    exact (head d span.line).bind fun sig => keepsThen (O.frame.declare _ _) fun _ =>
      .pure fun h => .function h
  next => cases hx

theorem bindingPhase : O.Covers Checker.bindingPhase := by
  intro s x hx
  unfold Checker.bindingPhase at hx
  split at hx
  next d span =>
    cases hx
    exact checked ⟨.binding d, span⟩
  next => cases hx

theorem fillSlot {phase : Checker.Phase} (hphase : O.Covers phase) (slot : Slot) :
    O.Omits (Checker.fillSlot phase slot) fun slot' =>
      slot'.stmt = slot.stmt ∧ (slot.Covers O.package → slot'.Covers O.package) := by
  unfold Checker.fillSlot
  split
  · exact .pure ⟨rfl, id⟩
  next x hx =>
    apply (hphase _ x hx).attempt.bind
    intro o
    cases o with
    | none => exact .pure fun _ => ⟨rfl, id⟩
    | some item =>
        apply Omits.pure
        rintro ⟨found, hfound, hcovers⟩
        cases hfound
        refine ⟨rfl, fun _ other hother => ?_⟩
        cases hother
        exact hcovers

structure Slots (O : Omission) (ss : List Source.Stmt) (slots : List Slot) : Prop where
  stmts : slots.map Slot.stmt = ss
  covers : ∀ slot ∈ slots, slot.Covers O.package

theorem runPhase {phase : Checker.Phase} (hphase : O.Covers phase) (ss : List Source.Stmt)
    (slots : List Slot) :
    O.Omits (Checker.runPhase phase slots) fun slots' => O.Slots ss slots → O.Slots ss slots' := by
  have hall : O.Omits (Checker.runPhase phase slots) (List.Forall₂ (fun slot slot' =>
      slot'.stmt = slot.stmt ∧ (slot.Covers O.package → slot'.Covers O.package)) slots) := by
    apply Omits.collect
    rw [List.forall₂_map_right_iff]
    exact List.forall₂_same.mpr fun slot _ => fillSlot hphase slot
  apply hall.mono
  intro slots' h hslots
  rcases hslots with ⟨rfl, hcovers⟩
  constructor
  · clear hall hcovers
    induction h with
    | nil => rfl
    | cons hslot _ ih => rw [List.map_cons, List.map_cons, hslot.1, ih]
  · clear hall
    induction h with
    | nil => exact fun slot hslot => absurd hslot List.not_mem_nil
    | cons hslot _ ih =>
        rcases List.forall_mem_cons.mp hcovers with ⟨hfirst, hrest⟩
        exact List.forall_mem_cons.mpr ⟨hslot.2 hfirst, ih hrest⟩

theorem outline (ss : List Source.Stmt) :
    O.Omits (Checker.outline ss) (List.Forall₂ (Item.Covers O.package) ss) := by
  have hempty : O.Slots ss (ss.map fun s => ⟨s, none⟩) := by
    constructor
    · rw [List.map_map]
      exact List.map_id ss
    · intro slot hslot item hitem
      rcases List.mem_map.mp hslot with ⟨s, _, rfl⟩
      cases hitem
  apply (runPhase importPhase ss _).bind
  intro slots₁
  apply keepsThen (O.frame.closure.declareAll _)
  intro _
  apply (runPhase interfacePhase ss slots₁).bind
  intro slots₂
  apply (runPhase classPhase ss slots₂).bind
  intro slots₃
  apply (runPhase functionPhase ss slots₃).bind
  intro slots₄
  apply (runPhase bindingPhase ss slots₄).bind
  intro slots₅
  apply Omits.pure
  intro hvalues hfunctions hclasses hinterfaces himports
  rcases hvalues (hfunctions (hclasses (hinterfaces (himports hempty)))) with ⟨rfl, hcovers⟩
  rw [List.forall₂_map_right_iff, List.forall₂_map_left_iff]
  apply List.forall₂_same.mpr
  rintro ⟨s, item⟩ hslot
  cases item with
  | none => exact .unchecked
  | some item => exact hcovers _ hslot item rfl

theorem finishItem {s : Source.Stmt} {item : Item} (h : item.Covers O.package s) :
    O.Omits (Checker.finishItem item) fun _ => Met (s.meets (.without O.package)) := by
  cases h with
  | function hhead =>
      exact (functionDecl _ (.pure hhead) (blockOf _) _).mono fun _ h => (Met.and rfl h.1).and h.2
  | classDecl hlength hparts =>
      exact (classWith _ (.pure ⟨hlength, hparts⟩) _).mono fun _ h =>
        Met.and rfl (ClassDecl.meets_of_parts h)
  | checked hs => exact .pure hs
  | unchecked => exact stmt s

theorem finish {ss : List Source.Stmt} {items : List Item}
    (h : List.Forall₂ (Item.Covers O.package) ss items) :
    O.Omits (Checker.finish items) fun _ => Met (Stmt.allMeet (.without O.package) ss) := by
  have hall : O.Omits (CheckM.collect (items.map fun item => attempt (Checker.finishItem item)))
      (List.Forall₂ (fun s _ => Met (s.meets (.without O.package))) ss) := by
    apply Omits.collect
    rw [List.forall₂_map_right_iff]
    exact h.imp fun _ _ hitem => (finishItem hitem).attempt.mono fun _ ⟨_, _, hs⟩ => hs
  exact hall.bind fun _ => .pure fun hss => Stmt.allMeet_of_forall (forall_of_forall₂ hss)

end Omission

theorem Checker.meets_without_of_runFile {settings : Settings} {load : Loader}
    (hload : load.Provides) {file : Source.File} {σ τ : Session} {f : Typed.File}
    (hrun : runFile settings load file σ = (.ok f, τ)) {package : String}
    (hpackage : ¬τ.Has package) : file.meets (.without package) := by
  obtain ⟨name, env, items, s, t, henv, houtline, hfinish, _, _, rfl⟩ := runFile_eq_ok.mp hrun
  have hprovides : env.load.Provides := by
    rcases Option.map_eq_some_iff.mp henv with ⟨_, _, hpair⟩
    cases hpair
    exact hload
  let O : Omission := ⟨package, env, hprovides⟩
  have hlacks : (Checker.finish items env s).2.Lacks package := by
    rw [hfinish.value]
    exact ⟨hfinish.quiet, hpackage⟩
  have hbefore : (Checker.outline file.stmts env (initial settings σ)).2.Lacks package := by
    rw [houtline.value]
    exact O.frame.closure.finish trivial items s hlacks
  have hitems := (Omission.outline (O := O) file.stmts _ hbefore).2 items
    (congrArg Prod.fst houtline.value)
  exact (Omission.finish (O := O) hitems s hlacks).2 f.stmts (congrArg Prod.fst hfinish.value)

end StaticTyping
