import StaticTyping.Proofs.Elaboration.Tree
import StaticTyping.Proofs.Location.Rules
import StaticTyping.Proofs.Location.Spans
import StaticTyping.Proofs.Placement
import StaticTyping.Proofs.Soundness.Outline

/-!
# Trees and the lines of their faults

Where all the spans in a tree start on marked lines, the check of the tree has its faults there, one
case for each form; and so have both passes over a file.
-/

namespace StaticTyping

open CheckM Source

theorem Checker.span_of_mayGive {env : Env} {e : Source.Expr} {typed : Typed.Expr}
    (h : (Checker.expr e).MayGive env typed) : typed.span = e.span := by
  rcases h with ⟨s, t, hrun⟩
  have hmet : Met (e.meets {}) := Condition.Vacuous.empty.entailed.ofExpr e False.elim
  have hgives := (Naming.all env).expr e hmet s (Session.calls_all _)
  rw [hrun] at hgives
  cases hgives.2 typed rfl with
  | intro => rfl

namespace Provenance

variable {env : Env} (P : Provenance env)

def Covers (spans : List Span) : Prop :=
  ∀ span ∈ spans, P.marks span.line

section Covers

variable {P} {span : Span} {spans more : List Span}

theorem Covers.head (h : P.Covers (span :: spans)) : P.marks span.line :=
  h span List.mem_cons_self

theorem Covers.tail (h : P.Covers (span :: spans)) : P.Covers spans :=
  fun other hother => h other (List.mem_cons_of_mem _ hother)

theorem Covers.left (h : P.Covers (spans ++ more)) : P.Covers spans :=
  fun other hother => h other (List.mem_append_left _ hother)

theorem Covers.right (h : P.Covers (spans ++ more)) : P.Covers more :=
  fun other hother => h other (List.mem_append_right _ hother)

theorem Covers.ident {name : Option Ident} (h : P.Covers (identSpans name)) :
    ∀ i ∈ name, P.marks i.line := by
  intro i hi
  cases hi
  exact h.head

theorem Covers.expr : ∀ {e : Source.Expr}, P.Covers e.spans → P.marks e.line
  | ⟨_, _⟩, h => h.head

end Covers

theorem importsStmt {imports : List Source.Import} (h : P.Covers (imports.flatMap Import.spans))
    (span : Span) : P.Traces (CheckM.importsStmt imports span) := by
  refine Traces.seq (Traces.collect fun x hx => ?_) fun targets => .pure _
  rcases List.mem_map.mp hx with ⟨i, hi, rfl⟩
  apply P.importModule
  apply h
  exact List.mem_flatMap.mpr ⟨i, hi, List.mem_cons_self⟩

mutual

theorem expr : ∀ e : Source.Expr, P.Covers e.spans → P.Traces (Checker.expr e)
  | ⟨kind, span⟩, h => by
      have hkind := exprKind kind h.tail h.head
      unfold Checker.expr
      split
      · exact hkind
      · exact hkind.inExpr _
termination_by structural e => e

theorem exprKind : ∀ k : Source.ExprKind, P.Covers k.spans → ∀ {span : Span},
    P.marks span.line → P.Traces (Checker.exprKind k span)
  | .int _, _, _, _ => .pure _
  | .float _, _, _, _ => .pure _
  | .string _, _, _, _ => .pure _
  | .char _, _, _, _ => .pure _
  | .bool _, _, _, _ => .pure _
  | .nil, _, _, _ => .pure _
  | .list items, h, span, _ => P.listLiteral (operands items h) span
  | .map es, h, span, _ => P.mapLiteral (entries es h) span
  | .var _, h, _, _ => (P.variableTy h.head).seq fun _ => .pure _
  | .this, _, _, hspan =>
      (Traces.view _).seq fun _ => (Traces.orFail _ _ hspan).seq fun _ => .pure _
  | .assign _ value, h, _, _ =>
      (P.valueOf _ h.head).seq fun _ =>
        ((P.operand h.tail.expr (expr value h.tail)).confirm _).seq fun _ => .pure _
  | .increment e, h, _, hspan =>
      (expr e h).seq fun _ => (Traces.require _ _ hspan).seq fun _ => .pure _
  | .decrement e, h, _, hspan =>
      (expr e h).seq fun _ => (Traces.require _ _ hspan).seq fun _ => .pure _
  | .binary left _ right, h, _, _ =>
      (expr left h.left).seq fun _ =>
        ((P.operand h.right.expr (expr right h.right)).confirm _).seq fun _ => .pure _
  | .logical left _ right, h, _, _ =>
      (expr left h.left).seq fun _ =>
        ((P.operand h.right.expr (expr right h.right)).confirm _).seq fun _ => .pure _
  | .unary _ e, h, _, hspan =>
      (expr e h).seq fun _ => (Traces.require _ _ hspan).seq fun _ => .pure _
  | .group e, h, _, _ => (expr e h).seq fun _ => .pure _
  | .is value _, h, _, hspan => P.isTest (expr value h.tail) h.head hspan
  | .call callee args _, h, _, _ =>
      (P.call callee (expr callee h.tail.left) (arguments args h.tail.right) h.head).seq fun _ =>
        .pure _
  | .get object _, h, _, _ => (P.member object (expr object h.tail) h.head).seq fun _ => .pure _
  | .set object _ value, h, _, _ =>
      ((P.member object (expr object h.tail.left) h.head).mapCause _).seq fun _ =>
        ((P.operand h.tail.right.expr (expr value h.tail.right)).confirm _).seq fun _ => .pure _
  | .index object index, h, _, hspan =>
      (expr object h.left).seq fun _ => (Traces.orFail _ _ hspan).seq fun _ =>
        (expr index h.right).seq fun _ => (Traces.require _ _ hspan).seq fun _ => .pure _
  | .slice object lower upper, h, _, hspan =>
      (expr object h.left).seq fun _ => (Traces.orFail _ _ hspan).seq fun _ =>
        (expr lower h.right.left).seq fun _ => (expr upper h.right.right).seq fun _ =>
          (Traces.require _ _ hspan).seq fun _ => (Traces.require _ _ hspan).seq fun _ => .pure _
  | .block b, h, _, _ => (blockOf b h).seq fun _ => .pure _
  | .cond condition thenBranch otherwise, h, span, _ =>
      P.condExpr (P.operand h.left.expr (expr condition h.left)) (blockOf thenBranch h.right.left)
        (exprOption otherwise h.right.right) span
  | .lambda ps ret body, h, _, hspan =>
      (P.signature (params ps h.left) ret hspan).seq fun sig =>
        (P.functionBody sig (blockOf body h.right) hspan).seq fun _ => .pure _
termination_by structural k => k

theorem operands : ∀ es : List Source.Expr, P.Covers (Expr.allSpans es) →
    ∀ o ∈ Checker.operands es, P.Operand o
  | [], _, _, ho => absurd ho List.not_mem_nil
  | e :: es, h, o, ho => by
      rcases List.mem_cons.mp ho with rfl | ho
      · exact P.operand h.left.expr (expr e h.left)
      · exact operands es h.right o ho
termination_by structural es => es

theorem entries : ∀ es : List Source.Entry, P.Covers (Entry.allSpans es) →
    ∀ e ∈ Checker.entries es, P.Operand e.1 ∧ P.Operand e.2
  | [], _, _, he => absurd he List.not_mem_nil
  | ⟨key, value⟩ :: es, h, e, he => by
      rcases List.mem_cons.mp he with rfl | he
      · constructor
        · exact P.operand h.left.expr (expr key h.left)
        · exact P.operand h.right.left.expr (expr value h.right.left)
      · exact entries es h.right.right e he
termination_by structural es => es

theorem arguments : ∀ args : List Source.Arg, P.Covers (Arg.allSpans args) →
    ∀ a ∈ Checker.arguments args, P.Argument a
  | [], _, _, ha => absurd ha List.not_mem_nil
  | ⟨_, value⟩ :: args, h, a, ha => by
      rcases List.mem_cons.mp ha with rfl | ha
      · constructor
        · exact h.left.ident
        · exact P.operand h.right.left.expr (expr value h.right.left)
      · exact arguments args h.right.right a ha
termination_by structural args => args

theorem exprOption : ∀ e : Option Source.Expr, P.Covers (Expr.optionSpans e) →
    ∀ x ∈ Checker.exprOption e, P.Traces x ∧ ∀ typed, x.MayGive env typed →
      P.marks typed.span.line
  | none, _, _, hx => absurd hx (Option.not_mem_none _)
  | some e, h, _, hx => by
      cases hx
      refine ⟨expr e h, fun typed htyped => ?_⟩
      rw [Checker.span_of_mayGive htyped]
      exact h.expr
termination_by structural e => e

theorem operandOption : ∀ e : Option Source.Expr, P.Covers (Expr.optionSpans e) →
    ∀ o ∈ Checker.operandOption e, P.Operand o
  | none, _, _, ho => absurd ho (Option.not_mem_none _)
  | some e, h, _, ho => by
      cases ho
      exact P.operand h.expr (expr e h)
termination_by structural e => e

theorem defaultOption : ∀ e : Option Source.Expr, P.Covers (Expr.optionSpans e) →
    ∀ d ∈ Checker.defaultOption e, P.Operand d.2
  | none, _, _, hd => absurd hd (Option.not_mem_none _)
  | some e, h, _, hd => by
      cases hd
      exact P.operand h.expr (expr e h)
termination_by structural e => e

theorem params : ∀ ps : List Source.Param, P.Covers (Source.Param.allSpans ps) →
    ∀ x ∈ Checker.params ps, P.Traces x
  | [], _, _, hx => absurd hx List.not_mem_nil
  | ⟨_, ty, variadic, default⟩ :: ps, h, x, hx => by
      rcases List.mem_cons.mp hx with rfl | hx
      · exact P.param h.head ty variadic (defaultOption default h.tail.left)
      · exact params ps h.tail.right x hx
termination_by structural ps => ps

theorem head : ∀ d : Source.Head, P.Covers d.spans → ∀ {line : UInt32}, P.marks line →
    P.Traces (Checker.head d line)
  | ⟨_, _, ps, ret⟩, h, _, hline =>
      (P.signature (params ps h.tail) ret hline).seq fun _ => .pure _
termination_by structural d => d

theorem blockOf : ∀ b : Source.Block, P.Covers b.spans → P.Traces (Checker.blockOf b)
  | ⟨ss, span⟩, h => P.block (stmts ss h.tail) span
termination_by structural b => b

theorem methodHeads : ∀ ms : List Source.Method, P.Covers (Method.allSpans ms) →
    ∀ x ∈ Checker.methodHeads ms, P.Traces x
  | [], _, _, hx => absurd hx List.not_mem_nil
  | ⟨d, _, _⟩ :: ms, h, x, hx => by
      rcases List.mem_cons.mp hx with rfl | hx
      · exact head d h.tail.left h.head
      · exact methodHeads ms h.tail.right.right x hx
termination_by structural ms => ms

theorem methodBodies : ∀ ms : List Source.Method, P.Covers (Method.allSpans ms) →
    ∀ m ∈ Checker.methodBodies ms, ∀ f, P.Traces (m f)
  | [], _, _, hm => absurd hm List.not_mem_nil
  | ⟨⟨name, _, _, _⟩, body, _⟩ :: ms, h, m, hm => by
      rcases List.mem_cons.mp hm with rfl | hm
      · exact P.functionOf name (blockOf body h.tail.right.left) h.head
      · exact methodBodies ms h.tail.right.right m hm
termination_by structural ms => ms

theorem requirements : ∀ rs : List Source.Requirement, P.Covers (Requirement.allSpans rs) →
    ∀ x ∈ Checker.requirements rs, P.Traces x
  | [], _, _, hx => absurd hx List.not_mem_nil
  | ⟨d, _⟩ :: rs, h, x, hx => by
      rcases List.mem_cons.mp hx with rfl | hx
      · exact head d h.tail.left h.head
      · exact requirements rs h.tail.right x hx
termination_by structural rs => rs

theorem classOf : ∀ d : Source.ClassDecl, P.Covers d.spans → P.Traces (Checker.classOf d)
  | ⟨name, visibility, ps, ms, _⟩, h =>
      P.classHead name visibility (params ps h.tail.left) (methodHeads ms h.tail.right.left)
        fun _ hi => h.tail.right.right _ (List.mem_map_of_mem hi)
termination_by structural d => d

theorem classWith : ∀ d : Source.ClassDecl, P.Covers d.spans → ∀ {sig : CheckM ClassTy},
    P.Traces sig → ∀ {span : Span}, P.marks span.line → P.Traces (Checker.classWith d sig span)
  | ⟨name, _, _, ms, _⟩, h, _, hsig, _, hspan =>
      P.classDecl name hsig (methodBodies ms h.tail.right.left) hspan
termination_by structural d => d

theorem interfaceOf : ∀ d : Source.InterfaceDecl, P.Covers d.spans →
    P.Traces (Checker.interfaceOf d)
  | ⟨name, visibility, rs⟩, h => P.interfaceHead name visibility (requirements rs h.tail)
termination_by structural d => d

theorem bindingOf : ∀ d : Source.Binding, P.Covers d.spans → ∀ {span : Span},
    P.marks span.line → P.Traces (Checker.bindingOf d span)
  | ⟨name, isMutable, written, init⟩, h, _, hspan =>
      P.binding name isMutable written (operandOption init h.tail) hspan
termination_by structural d => d

theorem stmt : ∀ s : Source.Stmt, P.Covers s.spans → P.Traces (Checker.stmt s)
  | ⟨kind, _⟩, h => stmtKind kind h.tail h.head
termination_by structural s => s

theorem stmtOption : ∀ s : Option Source.Stmt, P.Covers (Stmt.optionSpans s) →
    ∀ x ∈ Checker.stmtOption s, P.Traces x
  | none, _, _, hx => absurd hx (Option.not_mem_none _)
  | some s, h, _, hx => by
      cases hx
      exact stmt s h
termination_by structural s => s

theorem stmts : ∀ ss : List Source.Stmt, P.Covers (Stmt.allSpans ss) →
    ∀ x ∈ Checker.stmts ss, P.Traces x
  | [], _, _, hx => absurd hx List.not_mem_nil
  | s :: ss, h, x, hx => by
      rcases List.mem_cons.mp hx with rfl | hx
      · exact stmt s h.left
      · exact stmts ss h.right x hx
termination_by structural ss => ss

theorem stmtKind : ∀ k : Source.StmtKind, P.Covers k.spans → ∀ {span : Span},
    P.marks span.line → P.Traces (Checker.stmtKind k span)
  | .defer callee args _, h, _, _ =>
      Traces.inStmt _ ((P.call callee (expr callee h.tail.left) (arguments args h.tail.right)
        h.head).seq fun _ => .pure _)
  | .expr value, h, _, _ => (expr value h).seq fun _ => .pure _
  | .forLoop init condition increment body, h, span, _ =>
      P.forLoop (stmtOption init h.left) (operandOption condition h.right.left)
        (operandOption increment h.right.right.left) (stmts body h.right.right.right) span
  | .forEach name iterable body, h, _, hspan =>
      P.forEach name (expr iterable h.tail.left) (stmts body h.tail.right) hspan
  | .whileLoop condition body, h, span, _ =>
      P.whileLoop (P.operand h.left.expr (expr condition h.left)) (stmts body h.right) span
  | .function d body, h, _, hspan =>
      P.functionDecl d.name (head d h.left hspan) (blockOf body h.right) hspan
  | .binding d, h, _, hspan => bindingOf d h hspan
  | .moduleName _, _, _, _ => .pure _
  | .ret value, h, span, _ => P.returnStmt (operandOption value h) span
  | .yield value, h, _, hspan =>
      (Traces.view _).seq fun _ => (Traces.require _ _ hspan).seq fun _ =>
        (expr value h).seq fun _ => .pure _
  | .classDecl d, h, _, hspan => classWith d h (classOf d h) hspan
  | .interfaceDecl d, h, span, _ => P.interfaceDecl (interfaceOf d h) span
  | .importOne _ _, _, _, hspan => (P.importModule hspan).seq fun _ => .pure _
  | .importMany _, h, span, _ => P.importsStmt h span
  | .comment _, _, _, _ => .pure _
  | .continueLoop, _, _, hspan =>
      (Traces.view _).seq fun _ => (Traces.require _ _ hspan).seq fun _ => .pure _
  | .breakLoop, _, _, hspan =>
      (Traces.view _).seq fun _ => (Traces.require _ _ hspan).seq fun _ => .pure _
termination_by structural k => k

end

/-!
# Files
-/

def Phases (phase : Checker.Phase) : Prop :=
  ∀ s x, P.Covers s.spans → phase s = some x → P.Traces x

theorem importPhase : P.Phases Checker.importPhase := by
  intro s x h hx
  unfold Checker.importPhase at hx
  split at hx
  · cases hx
    exact (P.stmt _ h).map _
  · cases hx
    exact (P.stmt _ h).map _
  · cases hx

theorem interfacePhase : P.Phases Checker.interfacePhase := by
  intro s x h hx
  unfold Checker.interfacePhase at hx
  split at hx
  · cases hx
    exact (P.stmt _ h).map _
  · cases hx

theorem classPhase : P.Phases Checker.classPhase := by
  intro s x h hx
  unfold Checker.classPhase at hx
  split at hx
  · cases hx
    exact (P.classOf _ h.tail).seq fun sig => (P.declare _ _).seq fun _ => .pure _
  · cases hx

theorem functionPhase : P.Phases Checker.functionPhase := by
  intro s x h hx
  unfold Checker.functionPhase at hx
  split at hx
  · cases hx
    exact (P.head _ h.tail.left h.head).seq fun sig => (P.declare _ _).seq fun _ => .pure _
  · cases hx

theorem bindingPhase : P.Phases Checker.bindingPhase := by
  intro s x h hx
  unfold Checker.bindingPhase at hx
  split at hx
  · cases hx
    exact (P.stmt _ h).map _
  · cases hx

variable {P}

theorem runPhase {phase : Checker.Phase} (hphase : P.Phases phase) {slots : List Slot}
    (h : ∀ slot ∈ slots, P.Covers slot.stmt.spans) : P.Traces (Checker.runPhase phase slots) := by
  refine Traces.collect fun x hx => ?_
  rcases List.mem_map.mp hx with ⟨slot, hslot, rfl⟩
  unfold Checker.fillSlot
  split
  · exact .pure slot
  next x hx =>
    apply (hphase _ x (h slot hslot) hx).attempt.seq
    intro item
    cases item with
    | some item => exact .pure _
    | none => exact .pure slot

theorem Traces.afterPhase {α : Type} {phase : Checker.Phase} (hphase : P.Phases phase)
    {slots : List Slot} (h : ∀ slot ∈ slots, P.Covers slot.stmt.spans)
    {f : List Slot → CheckM α}
    (hf : ∀ slots, (∀ slot ∈ slots, P.Covers slot.stmt.spans) → P.Traces (f slots)) :
    P.Traces (Checker.runPhase phase slots >>= f) := by
  apply (runPhase hphase h).bind
  intro slots' hslots'
  rcases hslots' with ⟨s, t, hrun⟩
  apply hf slots'
  have hkept : (Checker.runPhase phase slots).Returns fun slots' =>
      ∀ slot ∈ slots', P.Covers slot.stmt.spans :=
    Checker.runPhase_stmts (P := fun s => P.Covers s.spans) h
  exact hkept env s slots' (congrArg Prod.fst hrun)

theorem outline {ss : List Source.Stmt} (h : P.Covers (Stmt.allSpans ss)) :
    P.Traces (Checker.outline ss) := by
  have hstart : ∀ slot ∈ ss.map (fun s => (⟨s, none⟩ : Slot)), P.Covers slot.stmt.spans := by
    intro slot hslot
    rcases List.mem_map.mp hslot with ⟨s, hs, rfl⟩
    exact fun span hspan => h span (Stmt.mem_allSpans.mpr ⟨s, hs, hspan⟩)
  exact Traces.afterPhase P.importPhase hstart fun _ h₁ => (P.declareAll _).seq fun _ =>
    Traces.afterPhase P.interfacePhase h₁ fun _ h₂ =>
    Traces.afterPhase P.classPhase h₂ fun _ h₃ =>
    Traces.afterPhase P.functionPhase h₃ fun _ h₄ =>
    Traces.afterPhase P.bindingPhase h₄ fun _ _ => .pure _

theorem finishItem {s : Source.Stmt} {item : Item} (h : P.Covers s.spans)
    (hitem : item.StemsFrom s) : P.Traces (Checker.finishItem item) := by
  cases hitem with
  | function sig =>
      exact P.functionDecl _ (.pure sig) (P.blockOf _ h.tail.right) h.head
  | classDecl => exact P.classWith _ h.tail (.pure _) h.head
  | checked typed => exact .pure typed
  | unchecked => exact P.stmt s h

theorem finish {ss : List Source.Stmt} {items : List Item} (h : P.Covers (Stmt.allSpans ss))
    (hitems : List.Forall₂ Item.StemsFrom ss items) : P.Traces (Checker.finish items) := by
  refine Traces.seq (Traces.collect fun x hx => ?_) fun stmts => .pure _
  rcases List.mem_map.mp hx with ⟨item, hitem, rfl⟩
  apply Traces.attempt
  clear hx
  induction hitems with
  | nil => exact absurd hitem List.not_mem_nil
  | cons hfirst _ ih =>
      rcases List.mem_cons.mp hitem with rfl | hitem
      · exact finishItem h.left hfirst
      · exact ih h.right hitem

end Provenance
end StaticTyping
