import StaticTyping.Proofs.Elaboration.Tree
import StaticTyping.Proofs.Order.Passes
import StaticTyping.Proofs.WellTyped

/-!
# Typed files stand for their sources

The first pass goes through a file kind by kind and fills a slot for each statement; the second
pass finishes what the slots hold.  If nothing is reported, no slot is lost, so the typed file has
one statement for each statement of the source, in the same order.
-/

namespace StaticTyping

open CheckM Source

variable {vars : String → Bool} {env : Env} {c : Source.Condition}

/-!
# The two passes
-/

inductive Item.StandsFor (vars : String → Bool) : Source.Stmt → Item → Prop where
  | function {head body span sig} : Source.Head.Elaborates vars head sig →
      Item.StandsFor vars ⟨.function head body, span⟩ (.function head body span sig)
  | classDecl {d span sig} : Source.ClassDecl.Outlines vars d sig →
      Item.StandsFor vars ⟨.classDecl d, span⟩ (.classDecl d span sig)
  | checked {s t} : Source.Stmt.Elaborates vars s t → Item.StandsFor vars s (.checked t)
  | unchecked {s} : Item.StandsFor vars s (.unchecked s)

structure Slot.StandsFor (vars : String → Bool) (s : Source.Stmt) (slot : Slot) : Prop where
  stmt : slot.stmt = s
  item : ∀ item, slot.item = some item → item.StandsFor vars s

def Checker.Phase.Elaborates (vars : String → Bool) (env : Env) (c : Source.Condition)
    (phase : Checker.Phase) : Prop :=
  ∀ s, Met (s.meets c) → ∀ x, phase s = some x → x.Gives vars env (Item.StandsFor vars s)

namespace Naming

theorem importPhase (H : Naming vars env c) : Checker.importPhase.Elaborates vars env c := by
  intro s hs x hx
  unfold Checker.importPhase at hx
  split at hx
  · cases hx
    exact (H.stmt _ hs).map fun _ ht => .checked ht
  · cases hx
    exact (H.stmt _ hs).map fun _ ht => .checked ht
  · cases hx

theorem interfacePhase (H : Naming vars env c) :
    Checker.interfacePhase.Elaborates vars env c := by
  intro s hs x hx
  unfold Checker.interfacePhase at hx
  split at hx
  · cases hx
    exact (H.stmt _ hs).map fun _ ht => .checked ht
  · cases hx

theorem classPhase (H : Naming vars env c) : Checker.classPhase.Elaborates vars env c := by
  intro s hs x hx
  unfold Checker.classPhase at hx
  split at hx
  next d span =>
    cases hx
    apply (H.classOf d hs.right).bind
    intro sig hsig
    have hcalled : (Ty.classTy sig).CalledBy vars d.name.name := by
      intro i hi
      cases hi
    exact (Gives.declare hcalled).bind fun _ _ => .pure (.classDecl hsig)
  next => cases hx

theorem functionPhase (H : Naming vars env c) : Checker.functionPhase.Elaborates vars env c := by
  intro s hs x hx
  unfold Checker.functionPhase at hx
  split at hx
  next head body span =>
    cases hx
    apply (H.head head hs.left.right span.line).bind
    intro sig hsig
    have hcalled : (Ty.named sig).CalledBy vars head.name.name := by
      intro i hi
      cases hi
    exact (Gives.declare hcalled).bind fun _ _ => .pure (.function hsig)
  next => cases hx

theorem bindingPhase (H : Naming vars env c) : Checker.bindingPhase.Elaborates vars env c := by
  intro s hs x hx
  unfold Checker.bindingPhase at hx
  split at hx
  · cases hx
    exact (H.stmt _ hs).map fun _ ht => .checked ht
  · cases hx

theorem fillSlot {phase : Checker.Phase} (hphase : phase.Elaborates vars env c) {s : Source.Stmt}
    (hs : Met (s.meets c)) {slot : Slot} (hslot : slot.StandsFor vars s) :
    (Checker.fillSlot phase slot).Gives vars env (Slot.StandsFor vars s) := by
  rcases hslot with ⟨rfl, hitem⟩
  unfold Checker.fillSlot
  split
  · exact .pure ⟨rfl, hitem⟩
  next x hx =>
    apply (hphase _ hs x hx).attempt.bind
    intro o ho
    cases o with
    | none => exact .pure ⟨rfl, hitem⟩
    | some item =>
        apply Gives.pure
        constructor
        · rfl
        · intro other hother
          cases hother
          exact ho item rfl

theorem runPhase {phase : Checker.Phase} (hphase : phase.Elaborates vars env c)
    {ss : List Source.Stmt} (hss : Met (Stmt.allMeet c ss)) {slots : List Slot}
    (hslots : List.Forall₂ (Slot.StandsFor vars) ss slots) :
    (Checker.runPhase phase slots).Gives vars env (List.Forall₂ (Slot.StandsFor vars) ss) := by
  unfold Checker.runPhase
  induction hslots with
  | nil => exact .pure .nil
  | cons hslot _ ih =>
      exact (fillSlot hphase hss.left hslot).bind fun slot hslot => (ih hss.right).bind
        fun slots hslots => .pure (.cons hslot hslots)

theorem declareForward (ss : List Source.Stmt) :
    (CheckM.declareAll (ss.filterMap Checker.forward?)).Gives vars env fun _ => True := by
  apply Gives.declareAll
  intro b hb i hi
  rcases List.mem_filterMap.mp hb with ⟨s, _, hforward⟩
  unfold Checker.forward? at hforward
  split at hforward
  · cases hforward
    cases hi
  · cases hforward
    cases hi
    exact .inl rfl
  · cases hforward

theorem outline (H : Naming vars env c) {ss : List Source.Stmt} (hss : Met (Stmt.allMeet c ss)) :
    (Checker.outline ss).Gives vars env (List.Forall₂ (Item.StandsFor vars) ss) := by
  have hempty : List.Forall₂ (Slot.StandsFor vars) ss (ss.map fun s => ⟨s, none⟩) := by
    rw [List.forall₂_map_right_iff]
    apply List.forall₂_same.mpr
    intro s _
    constructor
    · rfl
    · intro item hitem
      cases hitem
  -- every phase keeps the slots standing for their statements, filled or not
  apply (runPhase H.importPhase hss hempty).bind
  intro slots hslots
  apply (declareForward ss).bind
  intro _ _
  apply (runPhase H.interfacePhase hss hslots).bind
  intro slots hslots
  apply (runPhase H.classPhase hss hslots).bind
  intro slots hslots
  apply (runPhase H.functionPhase hss hslots).bind
  intro slots hslots
  apply (runPhase H.bindingPhase hss hslots).bind
  intro slots hslots
  apply Gives.pure
  rw [List.forall₂_map_right_iff]
  apply hslots.imp
  rintro s ⟨stmt, item⟩ ⟨rfl, hitem⟩
  cases item with
  | none => exact .unchecked
  | some item => exact hitem item rfl

theorem finishItem (H : Naming vars env c) {s : Source.Stmt} (hs : Met (s.meets c)) {item : Item}
    (hitem : item.StandsFor vars s) :
    (Checker.finishItem item).Gives vars env (s.Elaborates vars) := by
  cases hitem with
  | function hsig =>
      exact Gives.functionDecl (.pure ⟨hsig, H.headNames hsig hs.left.right⟩)
        (H.blockOf _ hs.right) _
  | classDecl hsig => exact H.classWith _ hs.right (.pure hsig) _
  | checked ht => exact .pure ht
  | unchecked => exact H.stmt s hs

theorem finishAll (H : Naming vars env c) {ss : List Source.Stmt} (hss : Met (Stmt.allMeet c ss))
    {items : List Item} (hitems : List.Forall₂ (Item.StandsFor vars) ss items) :
    (Checker.finish items).Gives vars env fun _ => True := by
  have hall : (CheckM.collect (items.map fun item => attempt (Checker.finishItem item))).Gives
      vars env fun _ => True := by
    induction hitems with
    | nil => exact .pure trivial
    | cons hitem _ ih =>
        exact (H.finishItem hss.left hitem).attempt.bind fun _ _ => (ih hss.right).bind
          fun _ _ => .pure trivial
  exact hall.bind fun _ _ => .pure trivial

theorem finish (H : Naming vars env c) {ss : List Source.Stmt} (hss : Met (Stmt.allMeet c ss))
    {items : List Item} (hitems : List.Forall₂ (Item.StandsFor vars) ss items) {s t : State}
    {ts : List Typed.Stmt} (hs : s.session.Calls vars)
    (hrun : (Checker.finish items).Succeeds env s ts t) :
    List.Forall₂ (Source.Stmt.Elaborates vars) ss ts := by
  rcases Checker.finish_iff.mp hrun with ⟨os, rfl, hos⟩
  clear hrun
  induction hitems generalizing s os with
  | nil =>
      rcases Succeeds.pure_iff.mp hos with ⟨rfl, _, _⟩
      exact .nil
  | cons hitem _ ih =>
      obtain ⟨o, os', u, rfl, ho, hrest⟩ :=
        (Succeeds.collect_cons_iff (Checker.finishItem_reporting env)).mp hos
      rcases Succeeds.attempt_iff.mp ho with ⟨typed, rfl, htyped⟩
      have hgives := H.finishItem hss.left hitem s hs
      rw [htyped.value] at hgives
      exact .cons (hgives.2 typed rfl) (ih hss.right hgives.1 os' hrest)

end Naming

/-!
# Files and sessions
-/

/-- The names of variables and parameters are such as variables may have. -/
def Source.Condition.variablesIn (vars : String → Bool) : Source.Condition where
  stmt
    | .binding d => vars d.name.name
    | .forEach name _ _ => vars name.name
    | _ => true
  params ps := ps.all fun p => vars p.name.name

theorem Source.Condition.variablesIn_vacuous : (variablesIn fun _ => true).Vacuous where
  expr _ := rfl
  stmt k := by cases k <;> rfl
  ty _ := rfl
  params _ := List.all_eq_true.mpr fun _ _ => rfl
  name _ := rfl

theorem Naming.ofLoader (h : Gives.LoaderCalls vars env.load) :
    Naming vars env (.variablesIn vars) where
  load := h
  binding hd := hd
  forEach hname := hname
  params hps := List.all_eq_true.mp hps

theorem Checker.envOf_load {settings : Settings} {load : Loader} {σ : Session} {file : Source.File}
    {name : String} {env : Env} (h : envOf settings load σ file = some (name, env)) :
    moduleName? file.stmts = some name ∧ env.load = load := by
  rcases Option.map_eq_some_iff.mp h with ⟨found, hfound, hpair⟩
  cases hpair
  exact ⟨hfound, rfl⟩

theorem Checker.runFile_elaborates {settings : Settings} {load : Loader}
    (hload : Gives.LoaderCalls vars load) {file : Source.File}
    (hfile : file.meets (.variablesIn vars)) {σ : Session} (hσ : σ.Calls vars) :
    (runFile settings load file σ).2.Calls vars ∧
      ∀ typed, (runFile settings load file σ).1 = .ok typed → file.Elaborates vars typed := by
  unfold runFile
  split
  next =>
    constructor
    · exact hσ
    · intro typed htyped
      cases htyped
  next name env henv =>
    rcases envOf_load henv with ⟨hname, rfl⟩
    have H : Naming vars env (.variablesIn vars) := .ofLoader hload
    have houtline := H.outline hfile (initial settings σ) hσ
    have hsession := pass_session (outline file.stmts) env (initial settings σ)
    have hattempt := (H.outline hfile).attempt (initial settings σ) hσ
    split
    next errors s hpass =>
      rw [hpass] at hsession
      constructor
      · rw [hsession]
        exact hattempt.1
      · intro typed htyped
        cases htyped
    next items s hpass =>
      have hrun := pass_iff.mp hpass
      rw [hrun.value] at houtline
      have hitems := houtline.2 items rfl
      have hfinish := (H.finishAll hfile hitems).attempt s houtline.1
      have hsession' := pass_session (finish items) env s
      split
      next errors s' hpass' =>
        rw [hpass'] at hsession'
        constructor
        · rw [hsession']
          exact hfinish.1
        · intro typed htyped
          cases htyped
      next stmts s' hpass' =>
        rw [hpass'] at hsession'
        constructor
        · rw [hsession']
          exact hfinish.1
        · intro typed htyped
          cases htyped
          exact ⟨rfl, hname, H.finish hfile hitems houtline.1 (pass_iff.mp hpass')⟩

namespace Session

variable {settings : Settings} {packages : Resolver}

theorem compileAll_calls (settings : Settings) {load : Loader} (hload : Gives.LoaderCalls vars load)
    {files : List Source.File} (hfiles : ∀ file ∈ files, file.meets (.variablesIn vars))
    (compilation : Compilation) {σ : Session} (hσ : σ.Calls vars) :
    (compileAll settings load files compilation σ).2.Calls vars := by
  induction files generalizing compilation σ with
  | nil => exact hσ
  | cons file files ih =>
      rcases List.forall_mem_cons.mp hfiles with ⟨hfile, hrest⟩
      exact ih hrest _ (Checker.runFile_elaborates hload hfile hσ).1

theorem load_calls (hpackages : packages.Meets (.variablesIn vars)) (depth : Nat) :
    Gives.LoaderCalls vars (load settings packages depth) := by
  apply load_induction (P := fun _ σ r => Session.Calls vars σ → Session.Calls vars r.2)
  · exact fun _ _ hσ => hσ
  · exact fun _ hσ => hσ
  · exact fun _ _ hσ => hσ
  · exact fun _ _ hσ => hσ
  · intro depth package files σ ih hnew hσ
    have hcompiled := compileAll_calls settings ih
      (hpackages _ _ hnew.files) (.start settings)
      (σ := (σ.request (settings.pathOf package)).beginPackage package) hσ
    unfold compile
    dsimp only
    split <;> exact hcompiled

theorem start_calls (settings : Settings) : (start settings).Calls vars := by
  suffices h : ∀ t : SymbolTable, t.Every (Ty.CalledBy vars) →
      (Builtin.bindAll t settings.preludeSpace).Every (Ty.CalledBy vars) by
    apply h
    intro space scopes hscopes
    cases hscopes
  unfold Builtin.bindAll
  induction Builtin.functions with
  | nil => exact fun _ ht => ht
  | cons f fs ih =>
      intro t ht
      apply ih
      apply ht.bind
      intro i hi
      cases hi

theorem after_calls {files : List Source.File} (hpackages : packages.Meets (.variablesIn vars))
    (hfiles : ∀ file ∈ files, file.meets (.variablesIn vars)) :
    (after settings packages files).Calls vars :=
  after_induction (start_calls settings) fun file hfile _ hσ =>
    (Checker.runFile_elaborates (load_calls hpackages _) (hfiles file hfile) hσ).1

/--
A typed file stands for its source, statement by statement and at every depth.  Moreover an
interface has the name that is written for it, except for names out of `vars`: these may be any
that include the names of all variables and parameters, and those that the session uses for
interfaces of other names.
-/
theorem check_elaborates (settings : Settings) (packages : Resolver) (σ : Session)
    (file : Source.File) (typed : Typed.File)
    (h : (check settings packages file σ).1 = .ok typed) :
    file.Elaborates (fun _ => true) typed ∧
      ∀ vars, σ.Calls vars → packages.Meets (.variablesIn vars) →
        file.meets (.variablesIn vars) → file.Elaborates vars typed := by
  have hall : ∀ vars, σ.Calls vars → packages.Meets (.variablesIn vars) →
      file.meets (.variablesIn vars) → file.Elaborates vars typed :=
    fun _ hσ hpackages hfile =>
      (Checker.runFile_elaborates (load_calls hpackages _) hfile hσ).2 typed h
  constructor
  · apply hall
    · exact calls_all σ
    · exact packages.meets_of_vacuous Source.Condition.variablesIn_vacuous
    · exact Source.Condition.variablesIn_vacuous.ofStmts file.stmts
  · exact hall

end Session

namespace Sample

def surveyNames (name : String) : Bool :=
  ["cart", "basket", "item", "first", "rest", "blank", "total"].contains name

def survey : Source.File :=
  file "survey" [stmt (.importOne (ident "sums") none), countable,
    stmt (.binding ⟨ident "blank", false, some (.list .int), none⟩),
    stmt (.binding ⟨ident "total", false, none, some (expr (.call (get (var "sums") "sum")
      [⟨some (ident "rest"), var "blank"⟩, ⟨some (ident "first"), expr (.int 2)⟩] default))⟩),
    stmt (.function ⟨ident "counts", .isPrivate, [param "item" "Countable"], some .bool⟩
      (block [stmt (.ret (some (expr (.is (var "item") (ident "Countable")))))]))]

def nameSpan : Span := ⟨5, 3, 5, 9⟩

def objectSpan : Span := ⟨5, 1, 5, 9⟩

/-- A function that tests a value for the interface of its own parameter, and sets a member of an
import. -/
def recount : Source.File :=
  file "recount" [countable, stmt (.importOne (ident "aura/strings") none),
    stmt (.function ⟨ident "recount", .isPrivate, [param "item" "Countable"], none⟩
      (block [stmt (.expr (expr (.is (var "item") (ident "item")))),
        stmt (.expr (expr (.set ⟨.var ⟨"strings", nameSpan⟩, objectSpan⟩ (ident "length")
          (get (var "strings") "length"))))]))]

end Sample

theorem Session.check_elaborates_survey :
    ∃ typed, (check {} Sample.sums Sample.survey (after {} Sample.sums [Sample.listingFile])).1 =
        .ok typed ∧ Sample.survey.Elaborates Sample.surveyNames typed :=
  ⟨_, rfl, (check_elaborates {} Sample.sums (after {} Sample.sums [Sample.listingFile])
    Sample.survey _ rfl).2 Sample.surveyNames
      (after_calls (PackageIndex.meets_resolver rfl) (List.forall_mem_singleton.mpr rfl))
      (PackageIndex.meets_resolver rfl) rfl⟩

/-- The name of a parameter is written in the test, but the interface has its own; and the object
that is set stands at the span of its identifier. -/
theorem Session.written_name_and_span_lost :
    ∃ typed f value i object set ty,
      (check {} .empty Sample.recount (start {})).1 = .ok typed ∧
      ⟨.function f, default⟩ ∈ typed.stmts ∧
      f.body.stmts = [⟨.expr ⟨.is value i, .bool, default⟩, default⟩,
        ⟨.expr ⟨.set object (Sample.ident "length") set, ty, default⟩, default⟩] ∧
      i.name ≠ "item" ∧ object.span ≠ Sample.objectSpan :=
  ⟨_, _, _, _, _, _, _, rfl, .tail _ (.tail _ (.tail _ (.head _))), rfl, by decide, by decide⟩

end StaticTyping
