import StaticTyping.Proofs.Order.Passes
import StaticTyping.Proofs.Pairing.Tree

/-!
# Files in two runs

The passes over a file go on after a fault.  If the first run has a fault that the second is not
known to share, then the rest of it is of no interest: what is reported stays reported, and the
first run fails in the end.
-/

namespace StaticTyping

open CheckM Source

namespace Pairing

variable {P : Pairing} {α β γ δ : Type}

/-!
# Runs that go on
-/

inductive Tracked (P : Pairing) (R : α → β → Prop) :
    Except Fault α × State → Except Fault β × State → Prop where
  | paired {s s' r r'} : P.Match R s s' r r' → Tracked P R r r'
  | lost {r r'} : P.free → r.2.report.reported → Tracked P R r r'

def Tracks (P : Pairing) (R : α → β → Prop) (x : CheckM α) (y : CheckM β) : Prop :=
  ∀ s s', P.States s s' → P.Tracked R (x P.env s) (y P.env' s')

theorem Pairs.tracks {R : α → β → Prop} {x : CheckM α} {y : CheckM β} (h : P.Pairs R x y) :
    P.Tracks R x y :=
  fun s s' hs => .paired (h s s' hs)

namespace Tracks

variable {R : α → β → Prop} {S : γ → δ → Prop}

theorem bind {x : CheckM α} {y : CheckM β} {f : α → CheckM γ} {g : β → CheckM δ}
    (hx : P.Tracks R x y) (hf : ∀ a b, R a b → P.Tracks S (f a) (g b))
    (hreporting : ∀ a, (f a).Reporting P.env) : P.Tracks S (x >>= f) (y >>= g) := by
  intro s s' hs
  have hfirst := hx s s' hs
  rcases hrun : x P.env s with ⟨r, t⟩
  rcases hrun' : y P.env' s' with ⟨r', t'⟩
  rw [hrun, hrun'] at hfirst
  cases hfirst with
  | paired hmatch =>
      cases hmatch with
      | ok hab ht =>
          rw [bind_apply_of_ok hrun, bind_apply_of_ok hrun']
          exact hf _ _ hab t t' ht.toStates
      | error he ht =>
          rw [bind_apply_of_error hrun, bind_apply_of_error hrun']
          exact .paired (.error he ht)
      | free hfree =>
          rw [bind_apply_of_error hrun]
          exact .paired (Likeness.Match.free hfree : P.Match S s s' _ _)
  -- the runs have parted; what the first one has reported, the rest of it does not take back
  | lost hfree hreported =>
      apply Tracked.lost hfree
      cases r with
      | ok a =>
          rw [bind_apply_of_ok hrun]
          exact hreporting a t hreported
      | error e =>
          rw [bind_apply_of_error hrun]
          exact hreported

theorem map {x : CheckM α} {y : CheckM β} (hx : P.Tracks R x y) {f : α → γ} {g : β → δ}
    (h : ∀ a b, R a b → S (f a) (g b)) :
    P.Tracks S (do let a ← x; pure (f a)) (do let b ← y; pure (g b)) :=
  hx.bind (fun a b hab => (Pairs.pure (h a b hab)).tracks) fun _ => .pure _

theorem attempt {x : CheckM α} {y : CheckM β} (h : P.Pairs R x y) :
    P.Tracks (Option.Rel R) (CheckM.attempt x) (CheckM.attempt y) := by
  intro s s' hs
  have hfirst := h s s' hs
  rcases hrun : x P.env s with ⟨r, t⟩
  rcases hrun' : y P.env' s' with ⟨r', t'⟩
  rw [hrun, hrun'] at hfirst
  cases hfirst with
  | ok hab ht =>
      rw [attempt_apply_of_ok hrun, attempt_apply_of_ok hrun']
      exact .paired (.ok (.some hab) ht)
  | error he ht =>
      rw [attempt_apply_of_error hrun, attempt_apply_of_error hrun']
      apply Tracked.paired
      apply Likeness.Match.ok .none
      have hreport := P.push ht.report fun hstrict =>
        congrArg₂ Fault.diagnose (he hstrict) (P.file hstrict)
      exact ⟨⟨ht.session, ht.classes, ht.exprs, ht.stmts, hreport⟩, ht.level, ht.level'⟩
  | free hfree =>
      rw [attempt_apply_of_error hrun]
      exact .lost hfree (t.report.reported_push _)

theorem collect {skip : α → Prop} {skip' : γ → Prop} {f : α → CheckM γ} {g : β → CheckM δ}
    (hf : ∀ a b, R a b → P.Tracks S (f a) (g b))
    (hskip : ∀ a, skip a → ∃ c, f a = pure c ∧ skip' c)
    (hreporting : ∀ a, (f a).Reporting P.env) {as : List α} {bs : List β}
    (h : Thinned R skip as bs) :
    P.Tracks (Thinned S skip') (CheckM.collect (as.map f)) (CheckM.collect (bs.map g)) := by
  have hrest : ∀ as : List α, (CheckM.collect (as.map f)).Reporting P.env :=
    Succeeds.collect_reporting hreporting
  induction h with
  | nil => exact (Pairs.pure .nil).tracks
  | @keep a b as bs hab _ ih =>
      apply (hf a b hab).bind
      · intro c d hcd
        exact ih.map fun cs ds hcds => .keep hcd hcds
      · exact fun c => (hrest as).bind fun cs => .pure (c :: cs)
  | @skip a as bs ha _ ih =>
      rcases hskip a ha with ⟨c, hc, hskipped⟩
      rw [List.map_cons, CheckM.collect, hc, pure_bind, ← bind_pure (CheckM.collect (bs.map g))]
      exact ih.map fun cs ds hcds => .skip hskipped hcds

end Tracks

/-!
# The first pass
-/

inductive Items (P : Pairing) : Item → Item → Prop where
  | function {d body span sig sig'} : Met (body.meets P.condition) →
      (P.source = true → body.closes) → P.Alike NamedFunction.strip sig sig' →
      Items P (.function d body span sig)
        (.function (d.strip P.source) (body.strip P.source) span sig')
  | classDecl {d span sig sig'} : Met (d.meets P.condition) →
      (P.source = true → ∀ m ∈ d.methods, m.body.closes) → P.Alike ClassTy.strip sig sig' →
      Items P (.classDecl d span sig) (.classDecl (d.strip P.source) span sig')
  | checked {t t'} : P.Kept t t' → Items P (.checked t) (.checked t')
  | unchecked {s} : Met (s.meets P.condition) → (P.source && s.isComment) = false →
      Items P (.unchecked s) (.unchecked (s.strip P.source))

inductive DroppedItem (P : Pairing) : Item → Prop where
  | unchecked {s} : (P.source && s.isComment) = true → DroppedItem P (.unchecked s)

structure Slots (P : Pairing) (slot slot' : Slot) : Prop where
  stmt : slot'.stmt = slot.stmt.strip P.source
  meets : Met (slot.stmt.meets P.condition)
  kept : (P.source && slot.stmt.isComment) = false
  item : Option.Rel P.Items slot.item slot'.item

structure DroppedSlot (P : Pairing) (slot : Slot) : Prop where
  dropped : (P.source && slot.stmt.isComment) = true
  item : slot.item = none

structure Phases (P : Pairing) (phase : Checker.Phase) : Prop where
  kept : ∀ s, Met (s.meets P.condition) → (P.source && s.isComment) = false →
    Option.Rel (P.Pairs P.Items) (phase s) (phase (s.strip P.source))
  comment : ∀ s, s.isComment → phase s = none
  reporting : phase.Reporting P.env

theorem checkedItem {s : Source.Stmt} (h : Met (s.meets P.condition))
    (hs : (P.source && s.isComment) = false) :
    P.Pairs P.Items (Item.checked <$> Checker.stmt s)
      (Item.checked <$> Checker.stmt (s.strip P.source)) :=
  (stmt_kept h hs (stmt s h)).map fun _ _ ht => .checked ht

theorem importPhase : P.Phases Checker.importPhase where
  kept := by
    intro s h hs
    rcases s with ⟨kind, span⟩
    cases kind with
    | importOne package alias? => exact .some (checkedItem h hs)
    | importMany imports => exact .some (checkedItem h hs)
    | _ => exact .none
  comment := by
    intro s hs
    rcases exists_comment hs with ⟨text, span, rfl⟩
    rfl
  reporting := Checker.importPhase_reporting P.env

theorem interfacePhase : P.Phases Checker.interfacePhase where
  kept := by
    intro s h hs
    rcases s with ⟨kind, span⟩
    cases kind with
    | interfaceDecl d => exact .some (checkedItem h hs)
    | _ => exact .none
  comment := by
    intro s hs
    rcases exists_comment hs with ⟨text, span, rfl⟩
    rfl
  reporting := Checker.interfacePhase_reporting P.env

theorem classPhase : P.Phases Checker.classPhase where
  kept := by
    intro s h hs
    rcases s with ⟨kind, span⟩
    cases kind with
    | classDecl d =>
        have hmeets : Met (d.meets P.condition) := Met.right h
        have hname : (d.strip P.source).name = d.name := by
          rcases d with ⟨_, _, _, _, _⟩
          rfl
        apply Option.Rel.some
        apply (classOf d hmeets).bind
        intro sig sig' hsig
        rw [hname]
        apply (Pairs.declare d.name.name (Likeness.alike_classTy hsig)).bind
        intro _ _ _
        exact .pure (.classDecl hmeets (P.methods (Met.left h)) hsig)
    | _ => exact .none
  comment := by
    intro s hs
    rcases exists_comment hs with ⟨text, span, rfl⟩
    rfl
  reporting := Checker.classPhase_reporting P.env

theorem functionPhase : P.Phases Checker.functionPhase where
  kept := by
    intro s h hs
    rcases s with ⟨kind, span⟩
    cases kind with
    | function d body =>
        have hname : (d.strip P.source).name = d.name := by
          rcases d with ⟨_, _, _, _⟩
          rfl
        apply Option.Rel.some
        apply (head d (Met.right (Met.left h)) span.line).bind
        intro sig sig' hsig
        rw [hname]
        apply (Pairs.declare d.name.name (Likeness.alike_named hsig)).bind
        intro _ _ _
        exact .pure (.function (Met.right h) (P.functions (Met.left (Met.left h))) hsig)
    | _ => exact .none
  comment := by
    intro s hs
    rcases exists_comment hs with ⟨text, span, rfl⟩
    rfl
  reporting := Checker.functionPhase_reporting P.env

theorem bindingPhase : P.Phases Checker.bindingPhase where
  kept := by
    intro s h hs
    rcases s with ⟨kind, span⟩
    cases kind with
    | binding d => exact .some (checkedItem h hs)
    | _ => exact .none
  comment := by
    intro s hs
    rcases exists_comment hs with ⟨text, span, rfl⟩
    rfl
  reporting := Checker.bindingPhase_reporting P.env

theorem fillSlot {phase : Checker.Phase} (hphase : P.Phases phase) {slot slot' : Slot}
    (h : P.Slots slot slot') :
    P.Tracks P.Slots (Checker.fillSlot phase slot) (Checker.fillSlot phase slot') := by
  have hkept := hphase.kept slot.stmt h.meets h.kept
  unfold Checker.fillSlot
  rw [h.stmt]
  revert hkept
  generalize phase slot.stmt = x
  generalize phase (slot.stmt.strip P.source) = x'
  intro hkept
  cases hkept with
  | none => exact (Pairs.pure h).tracks
  | some hx =>
      apply (Tracks.attempt hx).bind
      · intro o o' ho
        cases ho with
        | none => exact (Pairs.pure h).tracks
        | some hitem => exact (Pairs.pure ⟨rfl, h.meets, h.kept, .some hitem⟩).tracks
      · intro o
        cases o <;> exact .pure _

theorem runPhase {phase : Checker.Phase} (hphase : P.Phases phase) {slots slots' : List Slot}
    (h : Thinned P.Slots P.DroppedSlot slots slots') :
    P.Tracks (Thinned P.Slots P.DroppedSlot) (Checker.runPhase phase slots)
      (Checker.runPhase phase slots') := by
  apply Tracks.collect (fun _ _ hslot => fillSlot hphase hslot) _
    (Checker.fillSlot_reporting hphase.reporting) h
  intro slot hslot
  have hnone := hphase.comment slot.stmt (Bool.and_eq_true_iff.mp hslot.dropped).2
  refine ⟨slot, ?_, hslot⟩
  unfold Checker.fillSlot
  rw [hnone]

theorem slots {ss : List Source.Stmt} (h : Met (Stmt.allMeet P.condition ss)) :
    Thinned P.Slots P.DroppedSlot (ss.map fun s => ⟨s, none⟩)
      ((Stmt.stripAll P.source ss).map fun s => ⟨s, none⟩) := by
  induction ss with
  | nil => exact .nil
  | cons s ss ih =>
      rw [Stmt.stripAll]
      cases hs : P.source && s.isComment with
      | true => exact .skip ⟨hs, rfl⟩ (ih h.right)
      | false => exact .keep ⟨rfl, h.left, hs, .none⟩ (ih h.right)

theorem forward?_strip (cut : Bool) (s : Source.Stmt) :
    Checker.forward? (s.strip cut) = Checker.forward? s := by
  rcases s with ⟨kind, span⟩
  cases kind with
  | classDecl d =>
      rcases d with ⟨_, _, _, _, _⟩
      rfl
  | interfaceDecl d =>
      rcases d with ⟨_, _, _⟩
      rfl
  | _ => rfl

theorem forward?_of_isComment {s : Source.Stmt} (h : s.isComment) : Checker.forward? s = none := by
  rcases exists_comment h with ⟨text, span, rfl⟩
  rfl

theorem filterMap_forward? (cut : Bool) (ss : List Source.Stmt) :
    (Stmt.stripAll cut ss).filterMap Checker.forward? = ss.filterMap Checker.forward? := by
  induction ss with
  | nil => rfl
  | cons s ss ih =>
      rw [Stmt.stripAll]
      cases hs : cut && s.isComment with
      | true =>
          have hnone := forward?_of_isComment (Bool.and_eq_true_iff.mp hs).2
          rw [if_pos rfl, List.filterMap_cons_none hnone, ih]
      | false =>
          rw [if_neg Bool.false_ne_true, List.filterMap_cons, List.filterMap_cons, forward?_strip,
            ih]

theorem forward?_alike {s : Source.Stmt} {b : String × Ty} (h : Checker.forward? s = some b) :
    P.Alike Ty.strip b.2 b.2 := by
  rcases s with ⟨kind, span⟩
  cases kind with
  | classDecl d =>
      cases h
      rfl
  | interfaceDecl d =>
      cases h
      rfl
  | _ => cases h

theorem declareForward (ss : List Source.Stmt) :
    P.Pairs (fun _ _ => True) (CheckM.declareAll (ss.filterMap Checker.forward?))
      (CheckM.declareAll ((Stmt.stripAll P.source ss).filterMap Checker.forward?)) := by
  rw [filterMap_forward?]
  apply Pairs.declareAll
  rw [List.forall₂_same]
  intro b hb
  rcases List.mem_filterMap.mp hb with ⟨s, _, hs⟩
  exact ⟨rfl, forward?_alike hs⟩

theorem items {slots slots' : List Slot} (h : Thinned P.Slots P.DroppedSlot slots slots') :
    Thinned P.Items P.DroppedItem (slots.map fun slot => slot.item.getD (.unchecked slot.stmt))
      (slots'.map fun slot => slot.item.getD (.unchecked slot.stmt)) := by
  induction h with
  | nil => exact .nil
  | @keep slot slot' _ _ hslot _ ih =>
      rcases slot with ⟨s, item⟩
      rcases slot' with ⟨s', item'⟩
      rcases hslot with ⟨rfl, hmeets, hkept, hitem⟩
      apply Thinned.keep _ ih
      cases hitem with
      | none => exact .unchecked hmeets hkept
      | some hitem => exact hitem
  | @skip slot _ _ hslot _ ih =>
      rcases slot with ⟨s, item⟩
      rcases hslot with ⟨hdropped, rfl⟩
      exact .skip (.unchecked hdropped) ih

theorem outline {ss : List Source.Stmt} (h : Met (Stmt.allMeet P.condition ss)) :
    P.Tracks (Thinned P.Items P.DroppedItem) (Checker.outline ss)
      (Checker.outline (Stmt.stripAll P.source ss)) := by
  have hbindings : ∀ slots, (do
      let slots ← Checker.runPhase Checker.bindingPhase slots
      pure (slots.map fun slot => slot.item.getD (.unchecked slot.stmt)) :
        CheckM (List Item)).Reporting P.env :=
    fun slots => (Checker.runPhase_reporting (Checker.bindingPhase_reporting P.env) slots).bind
      fun _ => .pure _
  have hfunctions := fun slots =>
    (Checker.runPhase_reporting (Checker.functionPhase_reporting P.env) slots).bind hbindings
  have hclasses := fun slots =>
    (Checker.runPhase_reporting (Checker.classPhase_reporting P.env) slots).bind hfunctions
  have hinterfaces := fun slots =>
    (Checker.runPhase_reporting (Checker.interfacePhase_reporting P.env) slots).bind hclasses
  have hdeclare : (CheckM.declareAll (ss.filterMap Checker.forward?)).Reporting P.env :=
    (Frame.reporting P.env).closure.declareAll _
  apply (runPhase importPhase (slots h)).bind
  · intro slots slots' hslots
    apply (declareForward ss).tracks.bind
    · intro _ _ _
      apply (runPhase interfacePhase hslots).bind _ hclasses
      intro slots slots' hslots
      apply (runPhase classPhase hslots).bind _ hfunctions
      intro slots slots' hslots
      apply (runPhase functionPhase hslots).bind _ hbindings
      intro slots slots' hslots
      exact (runPhase bindingPhase hslots).map fun _ _ hslots => items hslots
    · exact fun _ => hinterfaces slots
  · exact fun slots => hdeclare.bind fun _ => hinterfaces slots

/-!
# The second pass
-/

theorem kept_of_returns {x y : CheckM Typed.Stmt} (h : P.Pairs (P.Alike Typed.Stmt.strip) x y)
    (hreturns : x.Returns fun t => t.isComment = false) : P.Pairs P.Kept x y := by
  apply h.knowing
  intro s t s' hrun
  exact .inr (hreturns P.env s t (congrArg Prod.fst hrun))

theorem finishItem {item item' : Item} (h : P.Items item item') :
    P.Pairs P.Kept (Checker.finishItem item) (Checker.finishItem item') := by
  cases h with
  | @function d body span sig sig' hbody hcloses hsig =>
      have hname : (d.strip P.source).name = d.name := by
        rcases d with ⟨_, _, _, _⟩
        rfl
      rw [Checker.finishItem, Checker.finishItem, hname]
      apply kept_of_returns (functionDecl d.name (.pure hsig) (blockOf body hbody hcloses) span)
      exact .bind fun _ => .bind fun _ => .bind fun _ => .pure rfl
  | @classDecl d span sig sig' hd hcloses hsig =>
      apply kept_of_returns (classWith d hd hcloses (.pure hsig) span)
      rcases d with ⟨_, _, _, _, _⟩
      exact .bind fun _ => .bind fun _ => .bind fun _ => .bind fun _ => .pure rfl
  | checked ht => exact .pure ht
  | @unchecked s hs hkept => exact stmt_kept hs hkept (stmt s hs)

def DroppedOutcome (P : Pairing) (o : Option Typed.Stmt) : Prop :=
  ∃ t, o = some t ∧ P.Dropped t

theorem present {os os' : List (Option Typed.Stmt)}
    (h : Thinned (Option.Rel P.Kept) P.DroppedOutcome os os') :
    Thinned P.Kept P.Dropped (os.filterMap id) (os'.filterMap id) := by
  induction h with
  | nil => exact .nil
  | keep ho _ ih =>
      cases ho with
      | none => exact ih
      | some ht => exact .keep ht ih
  | skip ho _ ih =>
      rcases ho with ⟨t, rfl, ht⟩
      exact .skip ht ih

theorem finish_dropped {item : Item} (h : P.DroppedItem item) :
    ∃ o, CheckM.attempt (Checker.finishItem item) = pure o ∧ P.DroppedOutcome o := by
  rcases h with ⟨hdropped⟩
  rcases stmt_dropped hdropped with ⟨t, hrun, ht⟩
  refine ⟨some t, ?_, t, rfl, ht⟩
  rw [Checker.finishItem, hrun]
  rfl

theorem finish {items items' : List Item} (h : Thinned P.Items P.DroppedItem items items') :
    P.Tracks (Thinned P.Kept P.Dropped) (Checker.finish items) (Checker.finish items') := by
  have hall : P.Tracks (Thinned (Option.Rel P.Kept) P.DroppedOutcome)
      (CheckM.collect (items.map fun item => CheckM.attempt (Checker.finishItem item)))
      (CheckM.collect (items'.map fun item => CheckM.attempt (Checker.finishItem item))) :=
    Tracks.collect (fun _ _ hitem => .attempt (finishItem hitem)) (fun _ => finish_dropped)
      (Checker.finishItem_reporting P.env) h
  exact hall.map fun _ _ hos => present hos

/-!
# Both passes
-/

inductive Passes (P : Pairing) (R : α → β → Prop) :
    Except Batch α × State → Except Batch β × State → Prop where
  | ok {a b s s'} : R a b → P.States s s' → Passes P R (.ok a, s) (.ok b, s')
  | error {r r' s s'} : P.report r r' → P.rel s.session s'.session →
      Passes P R (.error r, s) (.error r', s')
  | free {r s q} : P.free → r.reported → Passes P R (.error r, s) q

theorem pass_of_reported {x : CheckM α} {env : Env} {s : State}
    (h : (x env s).2.report.reported) :
    ∃ r t, Checker.pass x env s = (.error r, t) ∧ r.reported := by
  rcases hrun : x env s with ⟨r, t⟩
  rw [hrun] at h
  unfold Checker.pass
  cases r with
  | ok a =>
      rw [attempt_apply_of_ok hrun]
      dsimp only
      rw [if_pos h]
      exact ⟨t.report, _, rfl, h⟩
  | error e =>
      rw [attempt_apply_of_error hrun]
      exact ⟨_, _, rfl, t.report.reported_push _⟩

theorem pass {R : α → β → Prop} {x : CheckM α} {y : CheckM β} (h : P.Tracks R x y) {s s' : State}
    (hs : P.States s s') : P.Passes R (Checker.pass x P.env s) (Checker.pass y P.env' s') := by
  have hfirst := h s s' hs
  rcases hrun : x P.env s with ⟨r, t⟩
  rcases hrun' : y P.env' s' with ⟨r', t'⟩
  rw [hrun, hrun'] at hfirst
  cases hfirst with
  | paired hmatch =>
      cases hmatch with
      | ok hab ht =>
          unfold Checker.pass
          rw [attempt_apply_of_ok hrun, attempt_apply_of_ok hrun']
          dsimp only
          rw [P.reported ht.report]
          split
          · exact .error ht.report ht.session
          · exact .ok hab ht.toStates
      | @error e e' _ _ he ht =>
          unfold Checker.pass
          rw [attempt_apply_of_error hrun, attempt_apply_of_error hrun']
          exact .error (P.push ht.report fun hstrict =>
            congrArg₂ Fault.diagnose (he hstrict) (P.file hstrict)) ht.session
      | free hfree =>
          unfold Checker.pass
          rw [attempt_apply_of_error hrun]
          exact .free hfree (t.report.reported_push _)
  | lost hfree hreported =>
      rcases pass_of_reported (x := x) (hrun ▸ hreported) with ⟨r, u, hpass, hr⟩
      rw [hpass]
      exact .free hfree hr

end Pairing

/-!
# Files
-/

namespace Likeness

variable (L : Likeness)

/-- Two outcomes of the check of a file. -/
inductive Files : Except Batch Typed.File × Session → Except Batch Typed.File × Session → Prop where
  | ok {f f' σ σ'} : L.Alike Typed.File.strip f f' → L.rel σ σ' → Files (.ok f, σ) (.ok f', σ')
  | error {r r' σ σ'} : L.report r r' → L.rel σ σ' → Files (.error r, σ) (.error r', σ')
  | free {r σ q} : L.free → r.reported → Files (.error r, σ) q

end Likeness

theorem Source.Stmt.moduleName?_stripAll (cut : Bool) (ss : List Source.Stmt) :
    Checker.moduleName? (Stmt.stripAll cut ss) = Checker.moduleName? ss := by
  unfold Checker.moduleName?
  induction ss with
  | nil => rfl
  | cons s ss ih =>
      rw [Stmt.stripAll]
      cases hs : cut && s.isComment with
      | true =>
          rcases Pairing.exists_comment (Bool.and_eq_true_iff.mp hs).2 with ⟨text, span, rfl⟩
          exact ih
      | false =>
          rw [if_neg Bool.false_ne_true, List.findSome?_cons, List.findSome?_cons, ih]
          rcases s with ⟨kind, span⟩
          cases kind <;> rfl

namespace Pairing

variable {P : Pairing}

theorem runFile {settings settings' : Settings} {load load' : Loader} {file : Source.File}
    {σ σ' : Session} {name : String}
    (henv : Checker.envOf settings load σ file = some (name, P.env))
    (henv' : Checker.envOf settings' load' σ' (file.strip P.source) = some (name, P.env'))
    (hmeets : file.meets P.condition) (hσ : P.rel σ σ')
    (hreport : P.report (.ofLimit settings.maxErrors) (.ofLimit settings'.maxErrors)) :
    P.Files (Checker.runFile settings load file σ)
      (Checker.runFile settings' load' (file.strip P.source) σ') := by
  have hinitial : P.States (Checker.initial settings σ) (Checker.initial settings' σ') :=
    ⟨hσ, rfl, rfl, rfl, hreport⟩
  have houtline := pass (outline hmeets) hinitial
  unfold Checker.runFile
  rw [henv, henv']
  dsimp only
  revert houtline
  generalize Checker.pass (Checker.outline file.stmts) P.env (Checker.initial settings σ) = r
  show P.Passes _ r (Checker.pass (Checker.outline (file.strip P.source).stmts) P.env' _) → _
  generalize Checker.pass (Checker.outline (file.strip P.source).stmts) P.env'
    (Checker.initial settings' σ') = r'
  intro houtline
  cases houtline with
  | error herrors hσ => exact .error herrors hσ
  | free hfree hreported => exact .free hfree hreported
  | @ok items items' s s' hitems hs =>
      have hfinish := pass (finish hitems) hs
      dsimp only
      revert hfinish
      generalize Checker.pass (Checker.finish items) P.env s = r
      generalize Checker.pass (Checker.finish items') P.env' s' = r'
      intro hfinish
      cases hfinish with
      | error herrors hσ => exact .error herrors hσ
      | free hfree hreported => exact .free hfree hreported
      | ok hts ht =>
          exact .ok (congrArg (Typed.File.mk file.path name) (stripAll_of_thinned hts)) ht.session

end Pairing

namespace Likeness

variable {L : Likeness} {settings settings' : Settings} {load load' : Loader}

theorem unnamed (hreport : L.report (.ofLimit settings.maxErrors) (.ofLimit settings'.maxErrors))
    (file : Source.File) :
    L.report (Checker.unnamed settings file) (Checker.unnamed settings' (file.strip L.source)) := by
  apply L.push hreport
  intro hstrict
  cases hsource : L.source with
  | true => exact absurd (L.dropped hsource) (by rw [(L.plain hstrict).1]; exact Bool.false_ne_true)
  | false => rw [file.strip_false]

theorem runFile {file : Source.File} {σ σ' : Session} (hσ : L.rel σ σ')
    (hreport : L.report (.ofLimit settings.maxErrors) (.ofLimit settings'.maxErrors))
    (hpairing : ∀ name, Checker.moduleName? file.stmts = some name → ∃ P : Pairing,
      P.toLikeness = L ∧ P.env = ⟨settings, file.path, Checker.spaceOf σ name, load⟩ ∧
      P.env' = ⟨settings', file.path, Checker.spaceOf σ' name, load'⟩ ∧
      file.meets P.condition) :
    L.Files (Checker.runFile settings load file σ)
      (Checker.runFile settings' load' (file.strip L.source) σ') := by
  have hname : Checker.moduleName? (file.strip L.source).stmts = Checker.moduleName? file.stmts :=
    Stmt.moduleName?_stripAll _ _
  cases hmodule : Checker.moduleName? file.stmts with
  | none =>
      unfold Checker.runFile Checker.envOf
      rw [hname, hmodule]
      exact .error (unnamed hreport file) hσ
  | some name =>
      rcases hpairing name hmodule with ⟨P, rfl, henv, henv', hmeets⟩
      apply P.runFile _ _ hmeets hσ hreport
      · exact name
      · unfold Checker.envOf
        rw [hmodule, henv]
        rfl
      · unfold Checker.envOf
        rw [hname, hmodule, henv']
        rfl

end Likeness
end StaticTyping
