import StaticTyping.Proofs.Order.Passes
import StaticTyping.Proofs.Placement.Tree
import StaticTyping.Proofs.WellTyped

/-!
# Keywords stand where they belong

The first pass over a file meets the keywords in heads and in the values of variables, the second
one those in bodies and in the other statements.  A file that is checked with success has been gone
through in full, so that all of its keywords are placed; and a statement fails for a keyword only if
that stands in it, on the line of the fault, where it does not belong.
-/

namespace StaticTyping

open CheckM Source

/-!
# What the first pass leaves
-/

def Item.keywords : Item → List Occurrence
  | .function _ body _ _ => body.keywords [.function]
  | .classDecl d _ _ => d.bodyKeywords []
  | .checked _ => []
  | .unchecked s => s.keywords []

/-- What the first pass can keep of a statement. -/
inductive Item.StemsFrom : Source.Stmt → Item → Prop where
  | function {h body span} (sig : NamedFunction) :
      StemsFrom ⟨.function h body, span⟩ (.function h body span sig)
  | classDecl {d span} {sig : ClassTy} : sig.methods.length = d.methods.length →
      StemsFrom ⟨.classDecl d, span⟩ (.classDecl d span sig)
  | checked {s} (typed : Typed.Stmt) : StemsFrom s (.checked typed)
  | unchecked {s} : StemsFrom s (.unchecked s)

theorem Item.StemsFrom.keywords_subset {s : Source.Stmt} {item : Item} (h : item.StemsFrom s) :
    item.keywords ⊆ s.keywords [] := by
  cases h with
  | function => exact List.subset_append_right _ _
  | classDecl => exact List.subset_append_right _ _
  | checked => exact List.nil_subset _
  | unchecked => exact List.Subset.refl _

namespace Placement

variable {env : Env}

def Covers (env : Env) (phase : Checker.Phase) : Prop :=
  ∀ s x, phase s = some x → ∃ os, (Grading.stmts env []).Records os x ∧ os ⊆ s.keywords [] ∧
    ∀ item, x.MayGive env item → item.StemsFrom s ∧ s.keywords [] = os ++ item.keywords

theorem covers_checked (s : Source.Stmt) :
    ∃ os, (Grading.stmts env []).Records os (Item.checked <$> Checker.stmt s) ∧
      os ⊆ s.keywords [] ∧ ∀ item, (Item.checked <$> Checker.stmt s).MayGive env item →
        item.StemsFrom s ∧ s.keywords [] = os ++ item.keywords := by
  refine ⟨s.keywords [], (stmt s []).map _, List.Subset.refl _, ?_⟩
  intro item hitem
  rw [← bind_pure_comp] at hitem
  rcases hitem.of_bind with ⟨typed, _, _, _, hpure⟩
  cases hpure
  exact ⟨.checked typed, (List.append_nil _).symm⟩

theorem importPhase : Covers env Checker.importPhase := by
  intro s x hx
  unfold Checker.importPhase at hx
  split at hx
  next package alias? span =>
    cases hx
    exact covers_checked ⟨.importOne package alias?, span⟩
  next imports span =>
    cases hx
    exact covers_checked ⟨.importMany imports, span⟩
  next => cases hx

theorem interfacePhase : Covers env Checker.interfacePhase := by
  intro s x hx
  unfold Checker.interfacePhase at hx
  split at hx
  next d span =>
    cases hx
    exact covers_checked ⟨.interfaceDecl d, span⟩
  next => cases hx

theorem classPhase : Covers env Checker.classPhase := by
  intro s x hx
  unfold Checker.classPhase at hx
  split at hx
  next d span =>
    cases hx
    refine ⟨d.headKeywords [], ?_, List.subset_append_left _ _, ?_⟩
    · exact (inStmts (classOf d [])).followed fun sig => (declare _ _).before fun _ => .pure _
    · intro item hitem
      rcases hitem.of_bind with ⟨sig, hsig, hitem⟩
      rcases hitem.of_bind with ⟨_, _, _, _, hpure⟩
      cases hpure
      exact ⟨.classDecl (length_of_gives_classOf hsig), rfl⟩
  next => cases hx

theorem functionPhase : Covers env Checker.functionPhase := by
  intro s x hx
  unfold Checker.functionPhase at hx
  split at hx
  next h body span =>
    cases hx
    refine ⟨h.keywords [], ?_, List.subset_append_left _ _, ?_⟩
    · exact (inStmts (head h span.line [])).followed fun sig =>
        (declare _ _).before fun _ => .pure _
    · intro item hitem
      rcases hitem.of_bind with ⟨sig, hsig, hitem⟩
      rcases hitem.of_bind with ⟨_, _, _, _, hpure⟩
      cases hpure
      exact ⟨.function sig, rfl⟩
  next => cases hx

theorem bindingPhase : Covers env Checker.bindingPhase := by
  intro s x hx
  unfold Checker.bindingPhase at hx
  split at hx
  next d span =>
    cases hx
    exact covers_checked ⟨.binding d, span⟩
  next => cases hx

theorem covers_of_mem {phase : Checker.Phase} (h : phase ∈ Checker.phases) :
    Covers env phase := by
  simp only [Checker.phases, List.mem_cons, List.not_mem_nil, or_false] at h
  rcases h with rfl | rfl | rfl | rfl | rfl
  · exact importPhase
  · exact interfacePhase
  · exact classPhase
  · exact functionPhase
  · exact bindingPhase

/-!
# The first pass
-/

/-- Nothing stands around the statements of a file. -/
def Outside (s : State) : Prop :=
  s.stacks = ⟨[], [], []⟩

theorem Outside.atStmt {s : State} (h : Outside s) : s.stacks.AtStmt [] := by
  rw [show s.stacks = ⟨[], [], []⟩ from h]
  exact ⟨⟨rfl, rfl⟩, rfl⟩

structure Covered (slot : Slot) : Prop where
  stems : slot.kept.StemsFrom slot.stmt
  placed : ∀ o ∈ slot.stmt.keywords [], o.placed ∨ o ∈ slot.kept.keywords

theorem fillSlot {phase : Checker.Phase} (hphase : Covers env phase) {slot slot' : Slot}
    {s t : State} (hs : Outside s) (hslot : Covered slot)
    (hrun : (Checker.fillSlot phase slot).Succeeds env s slot' t) : Outside t ∧ Covered slot' := by
  cases hx : phase slot.stmt with
  | none =>
      rcases (Checker.fillSlot_idle hx).mp hrun with ⟨rfl, rfl, _⟩
      exact ⟨hs, hslot⟩
  | some x =>
      rcases (Checker.fillSlot_iff hx).mp hrun with ⟨item, rfl, hitem⟩
      rcases hphase _ x hx with ⟨os, hrecords, _, hgives⟩
      rcases hgives item ⟨s, t, hitem.value⟩ with ⟨hstems, hkeywords⟩
      have hstacks := hrecords.level s
      have hplaced := hrecords.placed s hs.atStmt item (congrArg Prod.fst hitem.value)
      rw [hitem.value] at hstacks
      refine ⟨hstacks.trans hs, hstems, ?_⟩
      intro o ho
      rw [hkeywords] at ho
      exact (List.mem_append.mp ho).imp_left (hplaced o)

theorem runPhase {phase : Checker.Phase} (hphase : Covers env phase)
    (hreporting : phase.Reporting env) {slots slots' : List Slot} {s t : State} (hs : Outside s)
    (hslots : ∀ slot ∈ slots, Covered slot)
    (hrun : (Checker.runPhase phase slots).Succeeds env s slots' t) :
    Outside t ∧ ∀ slot ∈ slots', Covered slot := by
  induction slots generalizing s slots' with
  | nil =>
      rcases Succeeds.pure_iff.mp hrun with ⟨rfl, rfl, _⟩
      exact ⟨hs, hslots⟩
  | cons slot slots ih =>
      obtain ⟨slot', rest', s', rfl, hslot, hrest⟩ :=
        (Succeeds.collect_cons_iff (Checker.fillSlot_reporting hreporting)).mp hrun
      rcases List.forall_mem_cons.mp hslots with ⟨hfirst, hothers⟩
      rcases fillSlot hphase hs hfirst hslot with ⟨hs', hmet⟩
      rcases ih hs' hothers hrest with ⟨ht, hmets⟩
      exact ⟨ht, List.forall_mem_cons.mpr ⟨hmet, hmets⟩⟩

theorem outline {ss : List Source.Stmt} {items : List Item} {s t : State} (hs : Outside s)
    (hrun : (Checker.outline ss).Succeeds env s items t) :
    Outside t ∧ ∃ slots : List Slot, slots.map Slot.stmt = ss ∧ items = slots.map Slot.kept ∧
      ∀ slot ∈ slots, Covered slot := by
  obtain ⟨_, _, _, _, slots₅, s₁, _, _, _, hruns, rfl⟩ := Checker.outline_iff.mp hrun
  have hempty : ∀ slot ∈ ss.map fun s => (⟨s, none⟩ : Slot), Covered slot := by
    intro slot hslot
    rcases List.mem_map.mp hslot with ⟨s, _, rfl⟩
    exact ⟨.unchecked, fun o ho => .inr ho⟩
  obtain ⟨h₁, hmet₁⟩ :=
    runPhase importPhase (Checker.importPhase_reporting env) hs hempty hruns.imports
  have hknown : Outside (onSymbols (·.bindAll env.space (ss.filterMap Checker.forward?)) s₁) := h₁
  obtain ⟨h₂, hmet₂⟩ :=
    runPhase interfacePhase (Checker.interfacePhase_reporting env) hknown hmet₁ hruns.interfaces
  obtain ⟨h₃, hmet₃⟩ :=
    runPhase classPhase (Checker.classPhase_reporting env) h₂ hmet₂ hruns.classes
  obtain ⟨h₄, hmet₄⟩ :=
    runPhase functionPhase (Checker.functionPhase_reporting env) h₃ hmet₃ hruns.functions
  obtain ⟨h₅, hmet₅⟩ :=
    runPhase bindingPhase (Checker.bindingPhase_reporting env) h₄ hmet₄ hruns.values
  exact ⟨h₅, slots₅, hruns.stmts, rfl, hmet₅⟩

/-!
# The second pass
-/

theorem finishItem {s : Source.Stmt} {item : Item} (h : item.StemsFrom s) :
    (Grading.stmts env []).Records item.keywords (Checker.finishItem item) := by
  cases h with
  | function sig => exact functionDecl _ (.pure sig) (blockOf _ [.function]) _
  | @classDecl d span sig hlength =>
      apply classWith d [] (.pure sig) _ span
      rintro c ⟨s, t, hpure⟩
      cases hpure
      exact hlength
  | checked typed => exact .pure typed
  | unchecked => exact stmt s []

theorem finish {slots : List Slot} {os : List (Option Typed.Stmt)} {s t : State} (hs : Outside s)
    (hslots : ∀ slot ∈ slots, Covered slot)
    (hrun : (CheckM.collect ((slots.map Slot.kept).map fun item =>
      attempt (Checker.finishItem item))).Succeeds env s os t) :
    ∀ slot ∈ slots, ∀ o ∈ slot.stmt.keywords [], o.placed := by
  induction slots generalizing s os with
  | nil => exact fun slot hslot => absurd hslot List.not_mem_nil
  | cons slot slots ih =>
      obtain ⟨o, os, s', rfl, hattempt, hrest⟩ :=
        (Succeeds.collect_cons_iff (Checker.finishItem_reporting env)).mp hrun
      rcases Succeeds.attempt_iff.mp hattempt with ⟨typed, rfl, htyped⟩
      rcases List.forall_mem_cons.mp hslots with ⟨hfirst, hothers⟩
      have hrecords : (Grading.stmts env []).Records slot.kept.keywords
          (Checker.finishItem slot.kept) := finishItem hfirst.stems
      have hstacks := hrecords.level s
      rw [htyped.value] at hstacks
      have hplaced := hrecords.placed s hs.atStmt typed (congrArg Prod.fst htyped.value)
      have hothers := ih (hstacks.trans hs) hothers hrest
      intro other hother o ho
      rcases List.mem_cons.mp hother with rfl | hother
      · exact (hfirst.placed o ho).elim id (hplaced o)
      · exact hothers other hother o ho

theorem mem_allKeywords {around : List Construct} {ss : List Source.Stmt} {o : Occurrence}
    (h : o ∈ Stmt.allKeywords around ss) : ∃ s ∈ ss, o ∈ s.keywords around := by
  induction ss with
  | nil => exact absurd h List.not_mem_nil
  | cons s ss ih =>
      rcases List.mem_append.mp h with h | h
      · exact ⟨s, List.mem_cons_self, h⟩
      · rcases ih h with ⟨s', hs', ho⟩
        exact ⟨s', List.mem_cons_of_mem _ hs', ho⟩

theorem runFile {settings : Settings} {load : Loader} {file : Source.File} {σ τ : Session}
    {f : Typed.File} (hrun : Checker.runFile settings load file σ = (.ok f, τ)) :
    ∀ o ∈ file.keywords, o.placed := by
  obtain ⟨name, env, items, s, t, henv, houtline, hfinish, _⟩ := Checker.runFile_eq_ok.mp hrun
  have hinitial : Outside (Checker.initial settings σ) := rfl
  obtain ⟨hs, slots, hstmts, rfl, hmet⟩ := outline hinitial houtline
  obtain ⟨os, _, hos⟩ := Checker.finish_iff.mp hfinish
  have hplaced := finish hs hmet hos
  intro o ho
  rcases mem_allKeywords ho with ⟨stmt, hstmt, ho⟩
  rw [← hstmts] at hstmt
  rcases List.mem_map.mp hstmt with ⟨slot, hslot, rfl⟩
  exact hplaced slot hslot o ho

/-!
# The theorem
-/

def aroundOf (st : Stacks) : List Construct :=
  (if st.stmts.top?.any StmtContext.isLoop then [.loop] else []) ++
    ((if st.exprs.top?.any ExprContext.takesYield then [.block] else []) ++
      if st.classes.top?.isSome then [.method] else [])

theorem atStmt_aroundOf (st : Stacks) : st.AtStmt (aroundOf st) := by
  unfold aroundOf
  refine ⟨⟨?_, ?_⟩, ?_⟩
  all_goals
    cases st.stmts.top?.any StmtContext.isLoop <;>
      cases st.exprs.top?.any ExprContext.takesYield <;> cases st.classes.top?.isSome <;> rfl

theorem stemsFrom_of_pass {ss : List Source.Stmt} {items : List Item} {s t : State}
    (hs : Outside s) (hrun : Checker.pass (Checker.outline ss) env s = (.ok items, t)) :
    List.Forall₂ Item.StemsFrom ss items := by
  obtain ⟨_, slots, rfl, rfl, hcovered⟩ := outline hs (Checker.pass_iff.mp hrun)
  rw [List.forall₂_map_left_iff, List.forall₂_map_right_iff]
  exact List.forall₂_same.mpr fun slot hslot => (hcovered slot hslot).stems

end Placement

/--
Keywords are accepted exactly where they belong.  In a file that is checked with success every
keyword is placed.  Conversely, if the check of a statement fails because of a keyword, in whatever
place, then the statement holds that keyword, on the line of the fault, where it does not belong.
For the statements of a file itself this is so in each phase of the first pass and, for what that
has kept of them, in the second pass.
-/
theorem Session.keywords_placed (settings : Settings) (packages : Resolver) :
    (∀ file σ f, (check settings packages file σ).1 = .ok f → ∀ o ∈ file.keywords, o.placed) ∧
    (∀ (env : Env) (s : State) (stmt : Source.Stmt) (k : Keyword) (line : UInt32),
      (∃ around, s.stacks.AtStmt around) ∧ ∀ around, s.stacks.AtStmt around →
        (Checker.stmt stmt env s).1 = .error ⟨k.cause, line⟩ →
          k.Misplaced line (stmt.keywords around)) ∧
    ∀ (env : Env) (s : State), Placement.Outside s →
      (∀ ss items t, Checker.pass (Checker.outline ss) env s = (.ok items, t) →
        List.Forall₂ Item.StemsFrom ss items) ∧
      ∀ (stmt : Source.Stmt) (k : Keyword) (line : UInt32),
        (∀ phase ∈ Checker.phases, ∀ x, phase stmt = some x →
          (x env s).1 = .error ⟨k.cause, line⟩ → k.Misplaced line (stmt.keywords [])) ∧
        ∀ item, item.StemsFrom stmt → (Checker.finishItem item env s).1 = .error ⟨k.cause, line⟩ →
          k.Misplaced line (stmt.keywords []) := by
  refine ⟨?_, ?_, ?_⟩
  · intro file σ f hok
    exact Placement.runFile (Prod.ext hok rfl)
  · intro env s stmt k line
    refine ⟨⟨_, Placement.atStmt_aroundOf s.stacks⟩, ?_⟩
    intro around hs herror
    exact (Placement.stmt stmt around).misplaced s hs k line herror
  · intro env s hs
    refine ⟨fun ss items t => Placement.stemsFrom_of_pass hs, ?_⟩
    intro stmt k line
    constructor
    · intro phase hphase x hx herror
      rcases Placement.covers_of_mem hphase stmt x hx with ⟨os, hrecords, hsubset, _⟩
      exact (hrecords.misplaced s hs.atStmt k line herror).of_subset hsubset
    · intro item hitem herror
      exact ((Placement.finishItem hitem).misplaced s hs.atStmt k line herror).of_subset
        hitem.keywords_subset

namespace Sample

def loopHead : Source.Head :=
  ⟨ident "run", .isPrivate, [], none⟩

def loopBody (inside behind : List Source.Stmt) : Source.Block :=
  block (stmt (.whileLoop (expr (.bool true)) inside) :: behind)

def loopFile : Source.File :=
  file "main" [stmt (.function loopHead (loopBody [stmt .breakLoop] []))]

def strayBody : Source.Block :=
  loopBody [] [⟨.breakLoop, ⟨7, 5, 7, 10⟩⟩]

def strayBreak : Source.Stmt :=
  stmt (.function loopHead strayBody)

def strayItem : Item :=
  .function loopHead strayBody default ⟨"run", .isPrivate, ⟨[], .nil⟩⟩

def loopEnv : Env :=
  ⟨{}, "main.aura", "main", Session.load {} .empty 0⟩

def loopState : State :=
  Checker.initial {} (Session.start {})

end Sample

theorem Session.keywords_placed_break :
    (∃ f, (check {} .empty Sample.loopFile (start {})).1 = .ok f) ∧
    Sample.loopFile.keywords = [⟨.breakLoop, 0, [.loop, .block, .function]⟩] ∧
    (∀ o ∈ Sample.loopFile.keywords, o.placed) ∧
    (Checker.stmt Sample.strayBreak Sample.loopEnv Sample.loopState).1 =
      .error ⟨Keyword.breakLoop.cause, 7⟩ ∧
    Placement.Outside Sample.loopState ∧ Sample.strayItem.StemsFrom Sample.strayBreak ∧
    (Checker.finishItem Sample.strayItem Sample.loopEnv Sample.loopState).1 =
      .error ⟨Keyword.breakLoop.cause, 7⟩ ∧
    Keyword.breakLoop.Misplaced 7 (Sample.strayBreak.keywords []) := by
  have h := keywords_placed {} .empty
  have houtside : Placement.Outside Sample.loopState := rfl
  have hstems : Sample.strayItem.StemsFrom Sample.strayBreak := .function _
  have herror : (Checker.stmt Sample.strayBreak Sample.loopEnv Sample.loopState).1 =
      .error ⟨Keyword.breakLoop.cause, 7⟩ := rfl
  have hmisplaced : Keyword.breakLoop.Misplaced 7 (Sample.strayBreak.keywords []) :=
    (h.2.1 Sample.loopEnv Sample.loopState Sample.strayBreak .breakLoop 7).2 [] houtside.atStmt
      herror
  exact ⟨⟨_, rfl⟩, rfl, h.1 Sample.loopFile (start {}) _ rfl, herror, houtside, hstems, rfl,
    hmisplaced⟩

end StaticTyping
