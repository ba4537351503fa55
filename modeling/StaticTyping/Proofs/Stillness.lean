import StaticTyping.Proofs.Grading
import StaticTyping.Proofs.Release
import StaticTyping.Proofs.Soundness.Outline

/-!
# Expressions leave the scopes as they were

An expression binds names only in scopes that it opens itself, for blocks and for the bodies of
functions.  These are left on every path, and so the scopes of the module are the same after the
check of an expression, of a head or of a signature as before it, whichever way it ends.
-/

namespace StaticTyping

open CheckM

/-- The scopes of the module that is checked. -/
def State.scopes (env : Env) (s : State) : Scopes :=
  s.session.symbols.scopesOf env.space

def CheckM.Still {α : Type} (env : Env) (x : CheckM α) : Prop :=
  ∀ s : State, (x env s).2.scopes env = s.scopes env

namespace CheckM.Still

variable {env : Env} {α β : Type} {x : CheckM α}

theorem bind {f : α → CheckM β} (hx : x.Still env) (hf : ∀ a, x.MayGive env a → (f a).Still env) :
    (x >>= f).Still env := by
  intro s
  have hfirst := hx s
  rcases h : x env s with ⟨r, t⟩
  rw [h] at hfirst
  cases r with
  | ok a =>
      rw [bind_apply_of_ok h]
      exact (hf a ⟨s, t, h⟩ t).trans hfirst
  | error e =>
      rw [bind_apply_of_error h]
      exact hfirst

theorem mapCause (hx : x.Still env) (f : Cause → Cause) : (CheckM.mapCause f x).Still env := by
  intro s
  have h := hx s
  unfold CheckM.mapCause
  rcases hrun : x env s with ⟨r, t⟩
  rw [hrun] at h
  cases r with
  | ok a => exact h
  | error e => exact h

theorem importStandard (package localName : String) :
    (CheckM.importStandard package localName).Still env := by
  intro s
  rcases importStandard_cases package localName env s with h | ⟨m, _, h⟩
  · rw [h]
  · rw [h]
    rfl

theorem require (ok : Bool) (cause : Cause) (line : UInt32) :
    (CheckM.require ok cause line).Still env := by
  unfold CheckM.require
  cases ok with
  | true => exact fun _ => rfl
  | false => exact fun _ => rfl

theorem guard (test : Env → State → Bool) (cause : Cause) (line : UInt32) (hx : x.Still env) :
    (do
      let ok ← CheckM.view test
      CheckM.require ok cause line
      x).Still env := by
  have htest : (CheckM.view test).Still env := fun _ => rfl
  exact htest.bind fun ok _ => (require ok cause line).bind fun _ _ => hx

theorem inStmt (c : StmtContext) (hx : x.Still env) : (CheckM.inStmt c x).Still env :=
  fun s => hx { s with stmts := s.stmts.push c }

theorem inExpr (c : ExprContext) (hx : x.Still env) : (CheckM.inExpr c x).Still env :=
  fun s => hx { s with exprs := s.exprs.push c }

theorem inScope (hload : env.load.Releases) (hx : (Frame.release env hload).Keeps x) :
    (CheckM.inScope x).Still env := by
  intro s
  have hreleased : (onSymbols (·.enter env.space) s).Released _ := hx _
  show (SymbolTable.leave _ env.space).scopesOf env.space = _
  rw [hreleased.session.symbols.leave_eq]
  exact SymbolTable.scopesOf_setScopes_self _ _ _

end CheckM.Still

def Grading.still (env : Env) : Grading env Empty where
  holds _ x := x.Still env
  ofPure _ _ := rfl
  ofView _ _ := rfl
  ofFail _ _ _ _ := rfl
  ofBind := Still.bind
  ofMapCause hx _ := hx.mapCause _
  ofStandard := Still.importStandard

namespace Stillness

variable {env : Env} (hload : env.load.Releases)

theorem all {α : Type} {R : List Empty → α → Prop} {as : List α} (h : ∀ a ∈ as, R [] a) :
    Adds R [] as := by
  induction as with
  | nil => exact .nil
  | cons a as ih =>
      rcases List.forall_mem_cons.mp h with ⟨ha, has⟩
      exact Adds.cons ha (ih has)

theorem option {α : Type} {R : List Empty → α → Prop} {o : Option α} (h : ∀ a ∈ o, R [] a) :
    AddsOption R [] o := by
  cases o with
  | none => exact .none
  | some a => exact .some (h a rfl)

theorem operandOf {e : Source.Expr} {check : CheckM Typed.Expr}
    (h : (Grading.still env).Records [] check) : (Grading.still env).Operand [] (.ofExpr e check) :=
  Grading.operand h fun _ => rfl

include hload

theorem blockOf (b : Source.Block) : (Grading.still env).Records [] (Checker.blockOf b) := by
  rcases b with ⟨ss, span⟩
  let F := Frame.release env hload
  have hstmts := F.closure.stmts ss (.inl trivial)
  exact Still.inExpr .block (Still.inScope hload
    ((Closure.Has.collect hstmts).bind fun _ => .pure _))

theorem functionBody (sig : Signature) (b : Source.Block) (line : UInt32) :
    (Grading.still env).Records [] (CheckM.functionBody sig (Checker.blockOf b) line) := by
  let F := Frame.release env hload
  have hbody := F.closure.blockOf b (.inl trivial)
  exact Still.inStmt .function (Still.inScope hload ((F.closure.declareAll _).bind fun _ =>
    hbody.bind fun body => (Closure.Has.require _ _ _).bind fun _ => .pure body))

/-!
# Expressions
-/

set_option linter.unusedSectionVars false

mutual

theorem expr : ∀ e : Source.Expr, (Grading.still env).Records [] (Checker.expr e)
  | ⟨kind, span⟩ => by
      have hkind := exprKind kind span
      unfold Checker.expr
      split
      · exact hkind
      · exact Still.inExpr _ hkind
termination_by structural e => e

theorem exprKind : ∀ (k : Source.ExprKind) (span : Span),
    (Grading.still env).Records [] (Checker.exprKind k span)
  | .int _, _ | .float _, _ | .string _, _ | .char _, _ | .bool _, _ | .nil, _ => .pure _
  | .list items, span => Grading.listLiteral (all (operands items)) span
  | .map es, span => Grading.mapLiteral (all (entries es)) span
  | .var name, _ => ((Grading.still env).variableTy name).before fun _ => .pure _
  | .this, _ => (Grading.Records.view _).before fun found => by
      cases found with
      | none => exact fun _ => rfl
      | some c => exact .pure _
  | .assign name value, _ => ((Grading.still env).valueOf name.name name.line).before fun _ =>
      ((operandOf (expr value)).confirm _).before fun _ => .pure _
  | .increment e, _ | .decrement e, _ =>
      (expr e).before fun _ => (Grading.Records.require _ _ rfl).before fun _ => .pure _
  | .binary left _ right, _ | .logical left _ right, _ =>
      (expr left).before fun _ => ((operandOf (expr right)).confirm _).before fun _ => .pure _
  | .unary _ e, _ =>
      (expr e).before fun _ => (Grading.Records.require _ _ rfl).before fun _ => .pure _
  | .group e, _ => (expr e).before fun _ => .pure _
  | .is value interface, span => Grading.isTest (expr value) interface span
  | .call callee args callSpan, _ =>
      (Grading.call callee (expr callee) (all (arguments args)) callSpan).before fun _ => .pure _
  | .get object name, _ =>
      (Grading.member (expr object) (fun _ => rfl) name).before fun _ => .pure _
  | .set object name value, _ =>
      (Grading.settableMember (expr object) (fun _ => rfl) name).before fun _ =>
        ((operandOf (expr value)).confirm _).before fun _ => .pure _
  | .index object index, _ =>
      (expr object).before fun _ => (Grading.Records.orFail _ _ rfl).before fun _ =>
        (expr index).before fun _ => (Grading.Records.require _ _ rfl).before fun _ => .pure _
  | .slice object lower upper, _ =>
      (expr object).before fun _ => (Grading.Records.orFail _ _ rfl).before fun _ =>
        (expr lower).before fun _ => (expr upper).before fun _ =>
          (Grading.Records.require _ _ rfl).before fun _ =>
            (Grading.Records.require _ _ rfl).before fun _ => .pure _
  | .block b, _ => (blockOf hload b).before fun _ => .pure _
  | .cond condition thenBranch otherwise, _ =>
      ((operandOf (expr condition)).confirm _).before fun _ =>
        (blockOf hload thenBranch).before fun thenBranch =>
          (Grading.elseBranch thenBranch.ty (option (exprOption otherwise))).before fun _ => .pure _
  | .lambda ps ret body, span =>
      (Grading.signature (all (params ps)) ret span.line).before fun sig =>
        (functionBody hload sig body span.line).before fun _ => .pure _
termination_by structural k => k

theorem operands : ∀ es : List Source.Expr,
    ∀ o ∈ Checker.operands es, (Grading.still env).Operand [] o
  | [] => fun _ ho => absurd ho List.not_mem_nil
  | e :: es => List.forall_mem_cons.mpr ⟨operandOf (expr e), operands es⟩
termination_by structural es => es

theorem entries : ∀ es : List Source.Entry,
    ∀ e ∈ Checker.entries es, (Grading.still env).Entry [] e
  | [] => fun _ he => absurd he List.not_mem_nil
  | ⟨key, value⟩ :: es => List.forall_mem_cons.mpr
      ⟨⟨[], [], rfl, operandOf (expr key), operandOf (expr value)⟩, entries es⟩
termination_by structural es => es

theorem arguments : ∀ args : List Source.Arg,
    ∀ a ∈ Checker.arguments args, (Grading.still env).Operand [] a.value
  | [] => fun _ ha => absurd ha List.not_mem_nil
  | ⟨_, value⟩ :: args => List.forall_mem_cons.mpr ⟨operandOf (expr value), arguments args⟩
termination_by structural args => args

theorem exprOption : ∀ e : Option Source.Expr,
    ∀ x ∈ Checker.exprOption e, (Grading.still env).Records [] x
  | none => fun _ hx => absurd hx (Option.not_mem_none _)
  | some e => fun x hx => by
      cases hx
      exact expr e
termination_by structural e => e

theorem defaultOption : ∀ e : Option Source.Expr,
    ∀ d ∈ Checker.defaultOption e, (Grading.still env).Operand [] d.2
  | none => fun _ hd => absurd hd (Option.not_mem_none _)
  | some e => fun d hd => by
      cases hd
      exact operandOf (expr e)
termination_by structural e => e

theorem params : ∀ ps : List Source.Param,
    ∀ x ∈ Checker.params ps, (Grading.still env).Records [] x
  | [] => fun _ hx => absurd hx List.not_mem_nil
  | ⟨name, ty, variadic, default⟩ :: ps => List.forall_mem_cons.mpr
      ⟨Grading.param name ty variadic (option (defaultOption default)), params ps⟩
termination_by structural ps => ps

end

theorem operandOption (e : Option Source.Expr) :
    ∀ o ∈ Checker.operandOption e, (Grading.still env).Operand [] o := by
  cases e with
  | none => exact fun _ ho => absurd ho (Option.not_mem_none _)
  | some e =>
      intro o ho
      cases ho
      exact operandOf (expr hload e)

/-!
# Declarations without their bodies
-/

theorem head (h : Source.Head) (line : UInt32) :
    (Grading.still env).Records [] (Checker.head h line) := by
  rcases h with ⟨name, visibility, ps, ret⟩
  exact (Grading.signature (all (params hload ps)) ret line).before fun _ => .pure _

theorem methodHeads (ms : List Source.Method) :
    ∀ x ∈ Checker.methodHeads ms, (Grading.still env).Records [] x := by
  induction ms with
  | nil => exact fun _ hx => absurd hx List.not_mem_nil
  | cons m ms ih =>
      rcases m with ⟨h, body, span⟩
      exact List.forall_mem_cons.mpr ⟨head hload h span.line, ih⟩

theorem requirements (rs : List Source.Requirement) :
    ∀ x ∈ Checker.requirements rs, (Grading.still env).Records [] x := by
  induction rs with
  | nil => exact fun _ hx => absurd hx List.not_mem_nil
  | cons r rs ih =>
      rcases r with ⟨h, span⟩
      exact List.forall_mem_cons.mpr ⟨head hload h span.line, ih⟩

theorem classOf (d : Source.ClassDecl) : (Checker.classOf d).Still env := by
  rcases d with ⟨name, visibility, ps, ms, implements⟩
  exact Grading.classHead name visibility (all (params hload ps)) (all (methodHeads hload ms))
    implements

theorem interfaceOf (d : Source.InterfaceDecl) : (Checker.interfaceOf d).Still env := by
  rcases d with ⟨name, visibility, rs⟩
  exact Grading.interfaceHead name visibility (all (requirements hload rs))

theorem bindingValue (d : Source.Binding) (span : Span) :
    (CheckM.bindingValue d.name d.written (Checker.operandOption d.init) span).Still env :=
  Grading.bindingValue d.name d.written (option (operandOption hload d.init)) span

/-!
# Statements
-/

theorem functionOf (name : Ident) (body : Source.Block) (line : UInt32) (sig : NamedFunction) :
    (CheckM.functionOf name (Checker.blockOf body) line sig).Still env :=
  Grading.Records.before (G := Grading.still env) (functionBody hload sig.sig body line)
    fun _ => .pure _

theorem methods (d : Source.ClassDecl) (sig : ClassTy) :
    (CheckM.inStmt .classDecl <| CheckM.inScope <| CheckM.inClass sig <| CheckM.collect
      (List.zipWith (fun check f => check f) (Checker.methodBodies d.methods) sig.methods)).Still
        env := by
  let F := Frame.release env hload
  exact Still.inStmt .classDecl (Still.inScope hload (Closure.Has.inClass sig
    (F.closure.methods (F.closure.methodBodies d.methods (.inl trivial)) sig.methods)))

theorem stmt {s : Source.Stmt} (h : s.declKind = .other) : (Checker.stmt s).Still env := by
  let F := Frame.release env hload
  let G := Grading.still env
  have hbody : ∀ ss : List Source.Stmt, F.Keeps (CheckM.collect (Checker.stmts ss)) :=
    fun ss => .collect (F.closure.stmts ss (.inl trivial))
  rcases s with ⟨kind, span⟩
  cases kind with
  | function | binding | classDecl | interfaceDecl | importOne | importMany => cases h
  | moduleName | comment => exact fun _ => rfl
  | defer callee args callSpan =>
      have hcall : G.Records [] _ :=
        Grading.call callee (expr hload callee) (all (arguments hload args)) callSpan
      exact Still.inStmt .defer (hcall.before fun _ => .pure _)
  | expr value =>
      have hvalue : G.Records [] _ := expr hload value
      exact hvalue.before fun _ => .pure _
  -- what a loop binds is in a scope of its own, which is left whatever happens inside
  | forLoop init condition increment body =>
      have hcondition : F.Keeps (CheckM.optional
          ((Checker.operandOption condition).map (·.confirm .bool))) := by
        apply Closure.Has.optional
        intro x hx
        rcases Option.map_eq_some_iff.mp hx with ⟨o, ho, rfl⟩
        exact (F.closure.operandOption condition (.inl trivial) o ho).confirm _
      have hincrement : F.Keeps (CheckM.optional
          ((Checker.operandOption increment).map (·.check))) := by
        apply Closure.Has.optional
        intro x hx
        rcases Option.map_eq_some_iff.mp hx with ⟨o, ho, rfl⟩
        exact (F.closure.operandOption increment (.inl trivial) o ho).check
      have hinit : F.Keeps (CheckM.optional (Checker.stmtOption init)) :=
        .optional (F.closure.stmtOption init (.inl trivial))
      exact Still.inStmt .forLoop (Still.inScope hload (hinit.bind fun _ =>
        hcondition.bind fun _ => hincrement.bind fun _ => (hbody body).bind fun _ => .pure _))
  | forEach name iterable body =>
      have hiterable : F.Keeps (Checker.expr iterable) := F.closure.expr iterable (.inl trivial)
      exact Still.inStmt .forEach (Still.inScope hload (hiterable.bind fun _ =>
        (Closure.Has.orFail _ _ _).bind fun _ => Closure.Has.bind (F.declare _ _) fun _ =>
          (hbody body).bind fun _ => .pure _))
  | whileLoop condition body =>
      have hcondition := F.closure.operand condition (F.closure.expr condition (.inl trivial))
      exact Still.inStmt .whileLoop (Still.inScope hload ((hcondition.confirm _).bind fun _ =>
        (hbody body).bind fun _ => .pure _))
  | ret value =>
      have hvalue : G.Records [] _ := Grading.Records.optional
        ((option (operandOption hload value)).map fun ho => ho.check)
      exact Still.inStmt .ret (hvalue.before fun _ => .pure _)
  | yield value =>
      have hvalue : G.Records [] _ := expr hload value
      exact Still.guard _ .misplacedYield span.line (hvalue.before fun _ => .pure _)
  | continueLoop => exact Still.guard _ .misplacedContinue span.line fun _ => rfl
  | breakLoop => exact Still.guard _ .misplacedBreak span.line fun _ => rfl

end Stillness
end StaticTyping
