import StaticTyping.Proofs.Grading
import StaticTyping.Proofs.Placement.Keywords

/-!
# Checks and the keywords in them

What a check knows of the constructs around it are three stacks.  Where they say the same as the
tree does, a check that succeeds has met no keyword out of its place, and one that fails for a
keyword has met it out of its place.
-/

namespace StaticTyping

open CheckM Source

variable {α β : Type}

/-!
# Places
-/

/-- The enclosing constructs that a check keeps track of. -/
structure Stacks where
  classes : ContextStack ClassTy
  exprs : ContextStack ExprContext
  stmts : ContextStack StmtContext

/-- The enclosing constructs of a state. -/
def State.stacks (s : State) : Stacks :=
  ⟨s.classes, s.exprs, s.stmts⟩

namespace Stacks

structure At (around : List Construct) (st : Stacks) : Prop where
  jumps : st.stmts.top?.any StmtContext.isLoop = Keyword.breakLoop.fits around
  this : st.classes.top?.isSome = Keyword.this.fits around

/-- Stacks that say the same as what stands around a statement. -/
structure AtStmt (around : List Construct) (st : Stacks) : Prop extends At around st where
  yields : st.exprs.top?.any ExprContext.takesYield = Keyword.yield.fits around

def InClass (st : Stacks) : Prop :=
  st.classes.top?.isSome

variable {around : List Construct} {st : Stacks}

theorem At.enter (h : st.At around) {c : StmtContext} {construct : Construct}
    (hjumps : c.isLoop = Keyword.breakLoop.fits [construct])
    (hbounds : construct.bounds = true) (hmethod : construct ≠ .method) :
    At (construct :: around) { st with stmts := st.stmts.push c } where
  jumps := by
    show c.isLoop = _
    rw [hjumps]
    simp [Keyword.fits, hbounds]
  this := by
    rw [h.this]
    simp [Keyword.fits, Ne.symm hmethod]

theorem AtStmt.enter (h : st.AtStmt around) {c : StmtContext} {construct : Construct}
    (hjumps : c.isLoop = Keyword.breakLoop.fits [construct])
    (hbounds : construct.bounds = true) (hmethod : construct ≠ .method)
    (hblock : construct ≠ .block) :
    AtStmt (construct :: around) { st with stmts := st.stmts.push c } where
  toAt := h.toAt.enter hjumps hbounds hmethod
  yields := by
    rw [h.yields]
    simp [Keyword.fits, Ne.symm hblock]

theorem InClass.enter (h : st.InClass) (c : StmtContext) (hc : c.isLoop = false) :
    At (.method :: around) { st with stmts := st.stmts.push c } where
  jumps := hc
  this := h

theorem At.block (h : st.At around) :
    AtStmt (.block :: around) { st with exprs := st.exprs.push .block } where
  jumps := h.jumps
  this := h.this
  yields := rfl

end Stacks

/-!
# Checks in general
-/

/-- The fault that a keyword stands where it does not belong. -/
def Source.Keyword.cause : Keyword → Cause
  | .breakLoop => .misplacedBreak
  | .continueLoop => .misplacedContinue
  | .yield => .misplacedYield
  | .this => .misplacedThis

theorem Source.Keyword.isMisplaced_cause (k : Keyword) : k.cause.isMisplaced = true := by
  cases k <;> rfl

theorem Source.Keyword.cause_injective : Function.Injective Keyword.cause := by
  intro k k'
  cases k <;> cases k' <;> simp [Keyword.cause]

/-- One of some keywords stands on a line where it does not belong. -/
def Source.Keyword.Misplaced (k : Keyword) (line : UInt32) (os : List Occurrence) : Prop :=
  ∃ o ∈ os, o.keyword = k ∧ o.line = line ∧ o.placed = false

structure CheckM.Heeds (env : Env) (place : Stacks → Prop) (os : List Occurrence) (x : CheckM α) :
    Prop where
  level : ∀ s, (x env s).2.stacks = s.stacks
  placed : ∀ s, place s.stacks → ∀ a, (x env s).1 = .ok a → ∀ o ∈ os, o.placed
  misplaced : ∀ s, place s.stacks → ∀ (k : Keyword) line,
    (x env s).1 = .error ⟨k.cause, line⟩ → k.Misplaced line os

theorem Source.Keyword.Misplaced.of_subset {k : Keyword} {line : UInt32} {os ps : List Occurrence}
    (h : k.Misplaced line os) (hsubset : os ⊆ ps) : k.Misplaced line ps := by
  rcases h with ⟨o, ho, hrest⟩
  exact ⟨o, hsubset ho, hrest⟩

namespace CheckM.Heeds

variable {env : Env} {place inner : Stacks → Prop} {os ps : List Occurrence} {x : CheckM α}

theorem of_ok {f : State → α} {g : State → State} (hx : ∀ s, x env s = (.ok (f s), g s))
    (hstacks : ∀ s, (g s).stacks = s.stacks) : x.Heeds env place [] where
  level s := by
    rw [hx]
    exact hstacks s
  placed _ _ _ _ o ho := absurd ho List.not_mem_nil
  misplaced s _ k line h := by
    rw [hx] at h
    cases h

theorem fail {cause : Cause} (line : UInt32) (hcause : cause.isMisplaced = false) :
    (CheckM.fail cause line : CheckM α).Heeds env place os where
  level _ := rfl
  placed _ _ _ h := nomatch h
  misplaced _ _ k _ h := by
    injection h with h
    injection h with h
    rw [h, k.isMisplaced_cause] at hcause
    cases hcause

theorem bind {f : α → CheckM β} (hx : x.Heeds env place os)
    (hf : ∀ a, x.MayGive env a → (f a).Heeds env place ps) :
    (x >>= f).Heeds env place (os ++ ps) := by
  constructor
  · intro s
    have hstacks := hx.level s
    rcases hrun : x env s with ⟨r, t⟩
    rw [hrun] at hstacks
    cases r with
    | ok a =>
        rw [bind_apply_of_ok hrun]
        exact ((hf a ⟨s, t, hrun⟩).level t).trans hstacks
    | error e =>
        rw [bind_apply_of_error hrun]
        exact hstacks
  -- the stacks are level after the first part, so that the second one stands in the same place
  · intro s hs b hb
    have hstacks := hx.level s
    have hplaced := hx.placed s hs
    rcases hrun : x env s with ⟨r, t⟩
    rw [hrun] at hstacks hplaced
    cases r with
    | ok a =>
        rw [bind_apply_of_ok hrun] at hb
        have hrest := (hf a ⟨s, t, hrun⟩).placed t (hstacks.symm ▸ hs) b hb
        exact fun o ho => (List.mem_append.mp ho).elim (hplaced a rfl o) (hrest o)
    | error e =>
        rw [bind_apply_of_error hrun] at hb
        cases hb
  · intro s hs k line herror
    have hstacks := hx.level s
    have hmisplaced := hx.misplaced s hs k line
    rcases hrun : x env s with ⟨r, t⟩
    rw [hrun] at hstacks hmisplaced
    cases r with
    | ok a =>
        rw [bind_apply_of_ok hrun] at herror
        exact ((hf a ⟨s, t, hrun⟩).misplaced t (hstacks.symm ▸ hs) k line herror).of_subset
          (List.subset_append_right os ps)
    | error e =>
        rw [bind_apply_of_error hrun] at herror
        cases herror
        exact (hmisplaced rfl).of_subset (List.subset_append_left os ps)

theorem mapCause {f : Cause → Cause} (hx : x.Heeds env place os)
    (hf : ∀ c, f c = c ∨ c.isMisplaced = false ∧ (f c).isMisplaced = false) :
    (CheckM.mapCause f x).Heeds env place os := by
  have hrun : ∀ s, CheckM.mapCause f x env s = (match (x env s).1 with
      | .ok a => .ok a
      | .error e => .error ⟨f e.cause, e.line⟩, (x env s).2) := by
    intro s
    unfold CheckM.mapCause
    rcases x env s with ⟨r, t⟩
    cases r <;> rfl
  constructor
  · intro s
    rw [hrun]
    exact hx.level s
  · intro s hs a ha
    apply hx.placed s hs a
    rw [hrun] at ha
    generalize (x env s).1 = r at ha ⊢
    cases r with
    | ok b => exact ha
    | error e => cases ha
  · intro s hs k line herror
    apply hx.misplaced s hs k line
    rw [hrun] at herror
    generalize (x env s).1 = r at herror ⊢
    cases r with
    | ok b => cases herror
    | error e =>
        rcases e with ⟨cause, found⟩
        injection herror with herror
        injection herror with hcause hline
        -- no other cause is turned into that of a keyword
        rcases hf cause with hsame | ⟨_, hother⟩
        · rw [← hsame, ← hline, hcause]
        · rw [hcause, k.isMisplaced_cause] at hother
          cases hother

theorem imp (hx : x.Heeds env inner os) (h : ∀ st, place st → inner st) :
    x.Heeds env place os :=
  ⟨hx.level, fun s hs => hx.placed s (h _ hs), fun s hs => hx.misplaced s (h _ hs)⟩

theorem inScope (hx : x.Heeds env place os) : (CheckM.inScope x).Heeds env place os :=
  ⟨fun s => hx.level (onSymbols (·.enter env.space) s),
    fun s => hx.placed (onSymbols (·.enter env.space) s),
    fun s => hx.misplaced (onSymbols (·.enter env.space) s)⟩

theorem inStmt (c : StmtContext) (hx : x.Heeds env inner os)
    (h : ∀ st, place st → inner { st with stmts := st.stmts.push c }) :
    (CheckM.inStmt c x).Heeds env place os where
  level s := by
    have hstacks := hx.level { s with stmts := s.stmts.push c }
    injection hstacks with hclasses hexprs hstmts
    show Stacks.mk _ _ _ = Stacks.mk _ _ _
    rw [Stacks.mk.injEq]
    exact ⟨hclasses, hexprs, congrArg ContextStack.pop hstmts⟩
  placed s hs := hx.placed { s with stmts := s.stmts.push c } (h _ hs)
  misplaced s hs := hx.misplaced { s with stmts := s.stmts.push c } (h _ hs)

theorem inExpr (c : ExprContext) (hx : x.Heeds env inner os)
    (h : ∀ st, place st → inner { st with exprs := st.exprs.push c }) :
    (CheckM.inExpr c x).Heeds env place os where
  level s := by
    have hstacks := hx.level { s with exprs := s.exprs.push c }
    injection hstacks with hclasses hexprs hstmts
    show Stacks.mk _ _ _ = Stacks.mk _ _ _
    rw [Stacks.mk.injEq]
    exact ⟨hclasses, congrArg ContextStack.pop hexprs, hstmts⟩
  placed s hs := hx.placed { s with exprs := s.exprs.push c } (h _ hs)
  misplaced s hs := hx.misplaced { s with exprs := s.exprs.push c } (h _ hs)

theorem inClass (c : ClassTy) (hx : x.Heeds env inner os)
    (h : ∀ st, place st → inner { st with classes := st.classes.push c }) :
    (CheckM.inClass c x).Heeds env place os where
  level s := by
    have hstacks := hx.level { s with classes := s.classes.push c }
    injection hstacks with hclasses hexprs hstmts
    show Stacks.mk _ _ _ = Stacks.mk _ _ _
    rw [Stacks.mk.injEq]
    exact ⟨congrArg ContextStack.pop hclasses, hexprs, hstmts⟩
  placed s hs := hx.placed { s with classes := s.classes.push c } (h _ hs)
  misplaced s hs := hx.misplaced { s with classes := s.classes.push c } (h _ hs)

end CheckM.Heeds

def Grading.heeding (env : Env) (place : Stacks → Prop) : Grading env Occurrence where
  holds os x := x.Heeds env place os
  ofPure a := .of_ok (f := fun _ => a) (g := id) (fun _ => rfl) fun _ => rfl
  ofView f := .of_ok (f := f env) (g := id) (fun _ => rfl) fun _ => rfl
  ofFail line _ := .fail line
  ofBind := .bind
  ofMapCause := .mapCause
  ofStandard package localName :=
    .of_ok (f := fun _ => ()) (importStandard_apply package localName env) fun _ => rfl

abbrev Grading.exprs (env : Env) (around : List Construct) : Grading env Occurrence :=
  .heeding env (Stacks.At around)

abbrev Grading.stmts (env : Env) (around : List Construct) : Grading env Occurrence :=
  .heeding env (Stacks.AtStmt around)

namespace Placement

variable {env : Env} {place : Stacks → Prop} {around : List Construct} {os ps : List Occurrence}

theorem inStmts {x : CheckM α} (h : (Grading.exprs env around).Records os x) :
    (Grading.stmts env around).Records os x :=
  Heeds.imp h fun _ hst => hst.toAt

/-!
# Steps without keywords
-/

theorem declare (name : String) (ty : Ty) :
    (Grading.heeding env place).Records [] (CheckM.declare name ty) :=
  Heeds.of_ok (f := fun _ => ()) (fun _ => rfl) fun _ => rfl

theorem declareAll (bindings : List (String × Ty)) :
    (Grading.heeding env place).Records [] (CheckM.declareAll bindings) := by
  induction bindings with
  | nil => exact .pure ()
  | cons b bindings ih => exact (declare b.1 b.2).before fun _ => ih

theorem loadPackage (package : String) (line : UInt32) :
    (Grading.heeding env place).Records [] (CheckM.loadPackage package line) := by
  have hrun : ∀ s, (CheckM.loadPackage package line env s).2.stacks = s.stacks ∧
      ∀ e, (CheckM.loadPackage package line env s).1 = .error e →
        e.cause.isMisplaced = false := by
    intro s
    unfold CheckM.loadPackage
    generalize env.load package s.session = r
    rcases r with ⟨r, τ⟩
    cases r with
    | ok m => exact ⟨rfl, nofun⟩
    | error e =>
        cases e with
        | cycle => exact ⟨rfl, fun e he => by cases he; rfl⟩
        | unavailable reason => exact ⟨rfl, fun e he => by cases he; rfl⟩
        | failed errors => exact ⟨rfl, fun e he => by cases he; rfl⟩
  constructor
  · exact fun s => (hrun s).1
  · exact fun _ _ _ _ o ho => absurd ho List.not_mem_nil
  · intro s _ k found herror
    have hcause := (hrun s).2 _ herror
    rw [k.isMisplaced_cause] at hcause
    cases hcause

theorem importModule (i : Source.Import) :
    (Grading.heeding env place).Records [] (CheckM.importModule i) := by
  apply (loadPackage i.package.name i.span.line).before
  intro m
  have hadd : (Grading.heeding env place).Records [] (addModule i.space m) :=
    Heeds.of_ok (f := fun _ => ()) (fun _ => rfl) fun _ => rfl
  exact hadd.before fun _ => .pure _

theorem importsStmt (imports : List Source.Import) (span : Span) :
    (Grading.heeding env place).Records [] (CheckM.importsStmt imports span) := by
  have hall : (Grading.heeding env place).Records []
      (CheckM.collect (imports.map CheckM.importModule)) := by
    induction imports with
    | nil => exact .pure []
    | cons i imports ih =>
        exact (importModule i).before fun target => ih.followed fun targets => .pure _
  exact hall.followed fun targets => .pure _

/-!
# Keywords
-/

theorem keyword {x : CheckM α} {k : Keyword} {line : UInt32} (test : Stacks → Bool)
    (htest : ∀ st, place st → test st = k.fits around)
    (hok : ∀ s, test s.stacks = true → ∃ a, x env s = (.ok a, s))
    (herror : ∀ s, test s.stacks = false → x env s = (.error ⟨k.cause, line⟩, s)) :
    (Grading.heeding env place).Records [⟨k, line, around⟩] x := by
  constructor
  · intro s
    cases hs : test s.stacks with
    | true =>
        rcases hok s hs with ⟨a, ha⟩
        rw [ha]
    | false => rw [herror s hs]
  · intro s hplace a ha
    cases hs : test s.stacks with
    | true => exact List.forall_mem_singleton.mpr ((htest _ hplace).symm.trans hs)
    | false =>
        rw [herror s hs] at ha
        cases ha
  · intro s hplace found foundLine hfound
    cases hs : test s.stacks with
    | true =>
        rcases hok s hs with ⟨a, ha⟩
        rw [ha] at hfound
        cases hfound
    | false =>
        rw [herror s hs] at hfound
        injection hfound with hfound
        injection hfound with hcause hline
        exact ⟨_, List.mem_singleton_self _, Keyword.cause_injective hcause, hline,
          (htest _ hplace).symm.trans hs⟩

theorem thisExpr (span : Span) :
    (Grading.exprs env around).Records [⟨.this, span.line, around⟩] (CheckM.thisExpr span) := by
  apply keyword fun st => st.classes.top?.isSome
  · exact fun st hst => hst.this
  · intro s hs
    have hsome : s.classes.top?.isSome := hs
    rcases Option.isSome_iff_exists.mp hsome with ⟨c, hc⟩
    refine ⟨⟨.this, .classTy c, span⟩, ?_⟩
    show (CheckM.orFail s.classes.top? _ _ >>= _) env s = _
    rw [hc]
    rfl
  · intro s hs
    have hnone : s.classes.top? = none :=
      Option.isNone_iff_eq_none.mp (Option.isSome_eq_false_iff.mp hs)
    show (CheckM.orFail s.classes.top? _ _ >>= _) env s = _
    rw [hnone]
    rfl

theorem guard (k : Keyword) (line : UInt32) (test : Stacks → Bool)
    (htest : ∀ st, place st → test st = k.fits around) {rest : CheckM α}
    (hrest : (Grading.heeding env place).Records os rest) :
    (Grading.heeding env place).Records (⟨k, line, around⟩ :: os)
      (CheckM.view (fun _ s => test s.stacks) >>= fun ok =>
        CheckM.require ok k.cause line >>= fun _ => rest) := by
  have hlook : (Grading.heeding env place).Records [⟨k, line, around⟩]
      (CheckM.view (fun _ s => test s.stacks) >>= fun ok => CheckM.require ok k.cause line) := by
    apply keyword test htest
    · intro s hs
      refine ⟨(), ?_⟩
      show CheckM.require (test s.stacks) _ _ env s = _
      rw [hs]
      rfl
    · intro s hs
      show CheckM.require (test s.stacks) _ _ env s = _
      rw [hs]
      rfl
  rw [← bind_assoc]
  exact hlook.seq fun _ => hrest

theorem continueStmt (span : Span) :
    (Grading.stmts env around).Records [⟨.continueLoop, span.line, around⟩]
      (CheckM.continueStmt span) :=
  guard .continueLoop span.line (fun st => st.stmts.top?.any StmtContext.isLoop)
    (fun _ hst => hst.jumps) (.pure _)

theorem breakStmt (span : Span) :
    (Grading.stmts env around).Records [⟨.breakLoop, span.line, around⟩] (CheckM.breakStmt span) :=
  guard .breakLoop span.line (fun st => st.stmts.top?.any StmtContext.isLoop)
    (fun _ hst => hst.jumps) (.pure _)

theorem yieldStmt {value : CheckM Typed.Expr} (h : (Grading.stmts env around).Records os value)
    (span : Span) :
    (Grading.stmts env around).Records (⟨.yield, span.line, around⟩ :: os)
      (CheckM.yieldStmt value span) :=
  guard .yield span.line (fun st => st.exprs.top?.any ExprContext.takesYield)
    (fun _ hst => hst.yields) (h.followed fun _ => .pure _)

/-!
# Blocks and bodies
-/

theorem block {stmts : List (CheckM Typed.Stmt)}
    (h : Adds (Grading.stmts env (.block :: around)).Records os stmts) (span : Span) :
    (Grading.exprs env around).Records os (CheckM.block stmts span) := by
  have hstmts : (Grading.stmts env (.block :: around)).Records os (CheckM.collect stmts >>=
      fun typed => (pure ⟨typed, valueTyOf typed, span⟩ : CheckM Typed.Block)) :=
    (Grading.Records.collect h).followed fun _ => .pure _
  exact (Heeds.inScope hstmts).inExpr .block fun _ hst => hst.block

theorem functionBody (sig : Signature) {body : CheckM Typed.Block}
    (h : (Grading.exprs env around).Records os body) (line : UInt32)
    (hplace : ∀ st, place st → Stacks.At around { st with stmts := st.stmts.push .function }) :
    (Grading.heeding env place).Records os (CheckM.functionBody sig body line) := by
  have hbody : (Grading.exprs env around).Records os
      (CheckM.declareAll (sig.params.map fun p => (p.name, p.bodyTy)) >>= fun _ =>
        body >>= fun body => CheckM.require (sig.ret.accepts body.ty)
          (.typeMismatch sig.ret body.ty) line >>= fun _ => pure body) :=
    (declareAll _).before fun _ => h.followed fun body =>
      (Grading.Records.require _ _ rfl).before fun _ => .pure body
  exact (Heeds.inScope hbody).inStmt .function hplace

theorem functionOf (name : Ident) {body : CheckM Typed.Block}
    (h : (Grading.exprs env around).Records os body) (line : UInt32) (sig : NamedFunction)
    (hplace : ∀ st, place st → Stacks.At around { st with stmts := st.stmts.push .function }) :
    (Grading.heeding env place).Records os (CheckM.functionOf name body line sig) :=
  (functionBody sig.sig h line hplace).followed fun _ => .pure _

theorem functionDecl (name : Ident) {sig : CheckM NamedFunction}
    (hsig : (Grading.stmts env around).Records os sig) {body : CheckM Typed.Block}
    (hbody : (Grading.exprs env (.function :: around)).Records ps body) (span : Span) :
    (Grading.stmts env around).Records (os ++ ps) (CheckM.functionDecl name sig body span) := by
  apply hsig.seq
  intro sig
  apply (declare name.name (.named sig)).before
  intro _
  have hf : (Grading.stmts env around).Records ps (CheckM.functionOf name body span.line sig) :=
    functionOf name hbody span.line sig fun _ hst => hst.toAt.enter rfl rfl (by decide)
  exact hf.followed fun f => .pure _

theorem classDecl (name : Ident) {sig : CheckM ClassTy}
    (hsig : (Grading.stmts env around).Records os sig)
    {methods : List (NamedFunction → CheckM Typed.Function)}
    (hmethods : Adds
      (fun ps check => ∀ f, (Grading.heeding env Stacks.InClass).Records ps (check f)) ps methods)
    (hlength : ∀ c, sig.MayGive env c → c.methods.length = methods.length) (span : Span) :
    (Grading.stmts env around).Records (os ++ ps) (CheckM.classDecl name sig methods span) := by
  apply hsig.bind
  intro c hc
  apply (declare name.name (.classTy c)).before
  intro _
  have hbodies : (Grading.heeding env Stacks.InClass).Records ps
      (CheckM.collect (List.zipWith (fun check f => check f) methods c.methods)) := by
    rw [List.zipWith_comm]
    rcases hmethods.zipWith (fun f hcheck => hcheck f) c.methods (Nat.le_of_eq (hlength c hc)) with
      ⟨ls, rs, rfl, hzip, hdrop⟩
    rw [hlength c hc, List.drop_length] at hdrop
    cases hdrop
    rw [List.append_nil]
    exact .collect hzip
  have hclass : Heeds env (fun _ => True) ps (CheckM.inClass c
      (CheckM.collect (List.zipWith (fun check f => check f) methods c.methods))) :=
    Heeds.inClass c hbodies fun _ _ => rfl
  have hdecl : (Grading.stmts env around).Records ps (CheckM.inStmt .classDecl <|
      CheckM.inScope <| CheckM.inClass c <|
        CheckM.collect (List.zipWith (fun check f => check f) methods c.methods)) :=
    hclass.inScope.inStmt .classDecl fun _ _ => trivial
  exact hdecl.followed fun typed =>
    (Grading.requireInterfaces c span.line c.implements).before fun _ => .pure _

end Placement
end StaticTyping
