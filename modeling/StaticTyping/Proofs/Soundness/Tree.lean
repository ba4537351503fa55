import StaticTyping.Proofs.Soundness.Expression

/-!
# Trees

The check of a tree is put together by the rules, so what it gives is well typed.
-/

namespace StaticTyping

open CheckM Source

/-- What the check of a tree rests on: sound loading, and a condition on trees under which
annotations can be written, parameters are in order, imports leave reserved names alone, and
imports are seen that names refer to. -/
structure Premises (D : Discipline) (env : Surroundings) (c : Source.Condition) : Prop where
  load : env.load.Sound D
  ty : ∀ {t : Ty}, c.ty t → t.Annotates D env
  params : ∀ {ps : List Source.Param}, c.params ps → D.condition.params ps
  name : ∀ {name : String}, c.name name → env.sees name
  importOne : ∀ {package alias?}, c.stmt (.importOne package alias?) →
    env.imports ∧ D.condition.stmt (.importOne package alias?)
  importMany : ∀ {packages}, c.stmt (.importMany packages) →
    env.imports ∧ D.condition.stmt (.importMany packages)

namespace Premises

variable {D : Discipline} {env : Surroundings} {c : Source.Condition}

theorem length_methodHeads : ∀ ms : List Source.Method,
    (Checker.methodHeads ms).length = (Checker.methodBodies ms).length
  | [] => rfl
  | ⟨⟨_, _, _, _⟩, _, _⟩ :: ms => congrArg (· + 1) (length_methodHeads ms)

theorem ret (H : Premises D env c) {ret : Option Ty} (h : Met (ret.all c.ty)) :
    ∀ ty ∈ ret, Ty.Annotates D env ty := by
  cases ret with
  | none => exact fun _ ht => absurd ht (Option.not_mem_none _)
  | some t =>
      intro _ ht
      cases ht
      exact H.ty h

theorem seesVar (H : Premises D env c) {e : Source.Expr} (h : Met (e.meets c)) (var : Ident)
    (hvar : e.kind = .var var) : env.sees var.name := by
  rcases e with ⟨kind, span⟩
  cases hvar
  exact H.name h.right

theorem seesAll (H : Premises D env c) {names : List Ident}
    (h : Met (names.all fun i => c.name i.name)) : ∀ i ∈ names, env.sees i.name :=
  fun i hi => H.name (List.all_eq_true.mp h i hi)

mutual

theorem expr (H : Premises D env c) : ∀ e : Source.Expr, Met (e.meets c) → ∀ Γ,
    ExprSound D env Γ (Checker.expr e)
  | ⟨kind, span⟩, h, Γ => by
      have hkind := H.exprKind kind h span Γ
      unfold Checker.expr
      split
      · exact hkind
      · exact Ensures.inExpr _ hkind
termination_by structural e => e

theorem exprKind (H : Premises D env c) : ∀ k : Source.ExprKind, Met (k.meets c) → ∀ span Γ,
    ExprSound D env Γ (Checker.exprKind k span)
  | .int _, _, _, _ => Yields.pure (.intro .int (.atom rfl))
  | .float _, _, _, _ => Yields.pure (.intro .float (.atom rfl))
  | .string _, _, _, _ => Yields.pure (.intro .string (.atom rfl))
  | .char _, _, _, _ => Yields.pure (.intro .char (.atom rfl))
  | .bool _, _, _, _ => Yields.pure (.intro .bool (.atom rfl))
  | .nil, _, _, _ => Yields.pure (.intro .nil (.atom rfl))
  | .list items, h, span, Γ => ExprSound.listLiteral (H.operands items h.right Γ) span
  | .map es, h, span, Γ => ExprSound.mapLiteral (H.entries es h.right Γ) span
  | .var _, h, _, _ =>
      (Yields.variableTy (H.name h.right)).bind fun _ hty => Yields.pure (.intro .var hty)
  | .this, _, span, _ => ExprSound.thisExpr span
  | .assign _ value, h, span, Γ =>
      ExprSound.assign (H.name h.left.right) (.ofExpr value (H.expr value h.right Γ)) span
  | .increment e, h, span, Γ => ExprSound.increment (H.expr e h.right Γ) span
  | .decrement e, h, span, Γ => ExprSound.decrement (H.expr e h.right Γ) span
  | .binary left op right, h, span, Γ =>
      ExprSound.binary (H.expr left h.left.right Γ) op (.ofExpr right (H.expr right h.right Γ)) span
  | .logical left op right, h, span, Γ =>
      ExprSound.logical (H.expr left h.left.right Γ) op (.ofExpr right (H.expr right h.right Γ)) span
  | .unary op e, h, span, Γ => ExprSound.unary op (H.expr e h.right Γ) span
  | .group e, h, _, Γ =>
      (H.expr e h.right Γ).bind fun _ he => Yields.pure (.intro (.group he) he.wellFormed)
  | .is value _, h, span, Γ =>
      ExprSound.isTest (H.expr value h.right Γ) (H.name h.left.right) span
  | .call callee args callSpan, h, _, Γ =>
      (Yields.call callee (H.expr callee h.left.right Γ) (H.arguments args h.right Γ)
        callSpan).bind fun _ hc => Yields.pure (.intro (.call hc.1) hc.2)
  | .get object name, h, span, Γ =>
      ExprSound.getExpr (.member (H.seesVar h.right) (H.expr object h.right Γ) name) span
  | .set object name value, h, span, Γ =>
      ExprSound.setExpr (Ensures.mapCause (Yields.member (H.seesVar h.left.right)
        (H.expr object h.left.right Γ) name) _)
        (.ofExpr value (H.expr value h.right Γ)) span
  | .index object index, h, span, Γ =>
      ExprSound.indexExpr (H.expr object h.left.right Γ) (H.expr index h.right Γ) span
  | .slice object lower upper, h, span, Γ =>
      ExprSound.sliceExpr (H.expr object h.left.left.right Γ) (H.expr lower h.left.right Γ)
        (H.expr upper h.right Γ) span
  | .block b, h, _, Γ =>
      (H.blockOf b h.right Γ).bind fun _ hb => Yields.pure (.intro (.block hb) hb.wellFormed)
  | .cond condition thenBranch otherwise, h, span, Γ =>
      ExprSound.condExpr (.ofExpr condition (H.expr condition h.left.left.right Γ))
        (H.blockOf thenBranch h.left.right Γ) (H.exprOption otherwise h.right Γ) span
  | .lambda ps _ body, h, span, Γ =>
      ExprSound.lambda (.signature (H.paramList ps h.left.left.right Γ)
        (H.params h.left.left.left.right) (H.ret h.left.right) span.line)
        (H.blockOf body h.right) span
termination_by structural k => k

theorem operands (H : Premises D env c) : ∀ es : List Source.Expr, Met (Expr.allMeet c es) → ∀ Γ,
    ∀ o ∈ Checker.operands es, Operand.Sound D env Γ o
  | [], _, _, _, ho => absurd ho List.not_mem_nil
  | e :: es, h, Γ, o, ho => by
      rcases List.mem_cons.mp ho with rfl | ho
      · exact .ofExpr e (H.expr e h.left Γ)
      · exact H.operands es h.right Γ o ho
termination_by structural es => es

theorem entries (H : Premises D env c) : ∀ es : List Source.Entry, Met (Entry.allMeet c es) →
    ∀ Γ, ∀ e ∈ Checker.entries es, Operand.Sound D env Γ e.1 ∧ Operand.Sound D env Γ e.2
  | [], _, _, _, he => absurd he List.not_mem_nil
  | ⟨key, value⟩ :: es, h, Γ, e, he => by
      rcases List.mem_cons.mp he with rfl | he
      · exact ⟨.ofExpr key (H.expr key h.left.left Γ), .ofExpr value (H.expr value h.left.right Γ)⟩
      · exact H.entries es h.right Γ e he
termination_by structural es => es

theorem arguments (H : Premises D env c) : ∀ args : List Source.Arg, Met (Arg.allMeet c args) →
    ∀ Γ, ∀ a ∈ Checker.arguments args, Operand.Sound D env Γ a.value
  | [], _, _, _, ha => absurd ha List.not_mem_nil
  | ⟨_, value⟩ :: args, h, Γ, a, ha => by
      rcases List.mem_cons.mp ha with rfl | ha
      · exact .ofExpr value (H.expr value h.left Γ)
      · exact H.arguments args h.right Γ a ha
termination_by structural args => args

theorem exprOption (H : Premises D env c) : ∀ e : Option Source.Expr, Met (Expr.optionMeets c e) →
    ∀ Γ, ∀ x ∈ Checker.exprOption e, ExprSound D env Γ x
  | none, _, _, _, hx => absurd hx (Option.not_mem_none _)
  | some e, h, Γ, _, hx => by
      cases hx
      exact H.expr e h Γ
termination_by structural e => e

theorem operandOption (H : Premises D env c) : ∀ e : Option Source.Expr,
    Met (Expr.optionMeets c e) → ∀ o ∈ Checker.operandOption e, ∀ Γ, Operand.Sound D env Γ o
  | none, _, _, ho => absurd ho (Option.not_mem_none _)
  | some e, h, _, ho => by
      cases ho
      exact fun Γ => .ofExpr e (H.expr e h Γ)
termination_by structural e => e

theorem defaultOption (H : Premises D env c) : ∀ e : Option Source.Expr,
    Met (Expr.optionMeets c e) → ∀ Γ, ∀ d ∈ Checker.defaultOption e, Operand.Sound D env Γ d.2
  | none, _, _, _, hd => absurd hd (Option.not_mem_none _)
  | some e, h, Γ, _, hd => by
      cases hd
      exact .ofExpr e (H.expr e h Γ)
termination_by structural e => e

theorem paramList (H : Premises D env c) : ∀ ps : List Source.Param, Met (Param.allMeet c ps) →
    ∀ Γ, ParamsSound D env Γ ps (Checker.params ps)
  | [], _, _ => .nil
  | ⟨name, _, variadic, default⟩ :: ps, h, Γ =>
      .cons (.param name (H.ty h.left.left) variadic (H.defaultOption default h.left.right Γ))
        (H.paramList ps h.right Γ)
termination_by structural ps => ps

theorem head (H : Premises D env c) : ∀ d : Source.Head, Met (d.meets c) → ∀ line Γ,
    (Checker.head d line).Yields D env Γ fun f => f.sig.WellFormed D Γ
  | ⟨_, _, ps, _⟩, h, line, Γ =>
      (Yields.signature (H.paramList ps h.left.right Γ) (H.params h.left.left) (H.ret h.right)
        line).bind fun _ hsig => Yields.pure hsig
termination_by structural d => d

theorem blockOf (H : Premises D env c) : ∀ b : Source.Block, Met (b.meets c) →
    BlockSound D env (Checker.blockOf b)
  | ⟨ss, span⟩, h, _ => Yields.block (H.stmts ss h) span
termination_by structural b => b

theorem methodHeads (H : Premises D env c) : ∀ ms : List Source.Method,
    Met (Method.allMeet c ms) → ∀ Γ, ∀ x ∈ Checker.methodHeads ms,
    CheckM.Yields D env Γ x fun f => f.sig.WellFormed D Γ
  | [], _, _, _, hx => absurd hx List.not_mem_nil
  | ⟨d, _, span⟩ :: ms, h, Γ, x, hx => by
      rcases List.mem_cons.mp hx with rfl | hx
      · exact H.head d h.left.left span.line Γ
      · exact H.methodHeads ms h.right Γ x hx
termination_by structural ms => ms

theorem methodBodies (H : Premises D env c) : ∀ ms : List Source.Method,
    Met (Method.allMeet c ms) → MethodsSound D env (Checker.methodBodies ms)
  | [], _, _, hm => absurd hm List.not_mem_nil
  | ⟨⟨name, _, _, _⟩, body, span⟩ :: ms, h, m, hm => by
      rcases List.mem_cons.mp hm with rfl | hm
      · exact fun Γ f hf => (Yields.functionOf name (H.blockOf body h.left.right) span.line hf).mono
          fun g hg => ⟨hg.1, hg.2.2⟩
      · exact H.methodBodies ms h.right m hm
termination_by structural ms => ms

theorem requirements (H : Premises D env c) : ∀ rs : List Source.Requirement,
    Met (Requirement.allMeet c rs) → ∀ Γ, ∀ x ∈ Checker.requirements rs,
    CheckM.Yields D env Γ x fun f => f.sig.WellFormed D Γ
  | [], _, _, _, hx => absurd hx List.not_mem_nil
  | ⟨d, span⟩ :: rs, h, Γ, x, hx => by
      rcases List.mem_cons.mp hx with rfl | hx
      · exact H.head d h.left span.line Γ
      · exact H.requirements rs h.right Γ x hx
termination_by structural rs => rs

theorem classOf (H : Premises D env c) : ∀ d : Source.ClassDecl, Met (d.meets c) → ∀ Γ,
    (Checker.classOf d).Yields D env Γ fun k =>
      k.WellFormed D Γ ∧ k.methods.length = (Checker.methodBodies d.methods).length
  | ⟨name, visibility, ps, ms, _⟩, h, Γ =>
      (Yields.classHead name visibility (H.paramList ps h.left.right Γ) (H.params h.left.left.right)
        (H.methodHeads ms h.right Γ) (H.seesAll h.left.left.left)).mono fun _ hk =>
        ⟨hk.1, hk.2.trans (length_methodHeads ms)⟩
termination_by structural d => d

theorem interfaceOf (H : Premises D env c) : ∀ d : Source.InterfaceDecl, Met (d.meets c) → ∀ Γ,
    (Checker.interfaceOf d).Yields D env Γ fun i => i.WellFormed D Γ
  | ⟨name, visibility, rs⟩, h, Γ => .interfaceHead name visibility (H.requirements rs h Γ)
termination_by structural d => d

theorem bindingOf (H : Premises D env c) : ∀ d : Source.Binding, Met (d.meets c) → ∀ span Γ,
    StmtSound D env Γ (Checker.bindingOf d span)
  | ⟨name, isMutable, _, init⟩, h, span, Γ =>
      .binding name isMutable (H.ret h.left) (fun o ho => H.operandOption init h.right o ho Γ) span
termination_by structural d => d

theorem stmt (H : Premises D env c) : ∀ s : Source.Stmt, Met (s.meets c) → ∀ Γ,
    StmtSound D env Γ (Checker.stmt s)
  | ⟨kind, span⟩, h, Γ => H.stmtKind kind h span Γ
termination_by structural s => s

theorem stmtOption (H : Premises D env c) : ∀ s : Option Source.Stmt,
    Met (Stmt.optionMeets c s) → ∀ x ∈ Checker.stmtOption s, ∀ Γ, StmtSound D env Γ x
  | none, _, _, hx => absurd hx (Option.not_mem_none _)
  | some s, h, _, hx => by
      cases hx
      exact H.stmt s h
termination_by structural s => s

theorem stmts (H : Premises D env c) : ∀ ss : List Source.Stmt, Met (Stmt.allMeet c ss) →
    ∀ x ∈ Checker.stmts ss, ∀ Γ, StmtSound D env Γ x
  | [], _, _, hx => absurd hx List.not_mem_nil
  | s :: ss, h, x, hx => by
      rcases List.mem_cons.mp hx with rfl | hx
      · exact H.stmt s h.left
      · exact H.stmts ss h.right x hx
termination_by structural ss => ss

theorem stmtKind (H : Premises D env c) : ∀ k : Source.StmtKind, Met (k.meets c) → ∀ span Γ,
    StmtSound D env Γ (Checker.stmtKind k span)
  | .defer callee args callSpan, h, span, Γ =>
      .deferStmt (.call callee (H.expr callee h.left.right Γ) (H.arguments args h.right Γ)
        callSpan) span
  | .expr value, h, span, Γ => .exprStmt (H.expr value h.right Γ) span
  | .forLoop init condition increment body, h, span, _ =>
      .forLoop (H.stmtOption init h.left.left.left.right)
        (H.operandOption condition h.left.left.right) (H.operandOption increment h.left.right)
        (H.stmts body h.right) span
  | .forEach name iterable body, h, span, _ =>
      .forEach name (H.expr iterable h.left.right) (H.stmts body h.right) span
  | .whileLoop condition body, h, span, _ =>
      .whileLoop (fun Γ => .ofExpr condition (H.expr condition h.left.right Γ))
        (H.stmts body h.right) span
  | .function d body, h, span, Γ =>
      .functionDecl d.name (H.head d h.left.right span.line Γ) (H.blockOf body h.right) span
  | .binding d, h, span, Γ => H.bindingOf d h.right span Γ
  | .moduleName _, _, _, _ => .pure .moduleName
  | .ret value, h, span, Γ =>
      .returnStmt (fun o ho => H.operandOption value h.right o ho Γ) span
  | .yield value, h, span, Γ => .yieldStmt (H.expr value h.right Γ) span
  | .classDecl ⟨name, visibility, ps, ms, implements⟩, h, span, Γ =>
      .classDecl name (H.classOf ⟨name, visibility, ps, ms, implements⟩ h.right Γ)
        (H.methodBodies ms h.right.right) span
  | .interfaceDecl d, h, span, Γ => .interfaceDecl (H.interfaceOf d h.right Γ) span
  | .importOne _ _, h, span, _ => .importStmt (H.importOne h).1 H.load (H.importOne h).2 span
  | .importMany _, h, span, _ => .importsStmt (H.importMany h).1 H.load (H.importMany h).2 span
  | .comment _, _, _, _ => .pure .comment
  | .continueLoop, _, span, _ => .continueStmt span
  | .breakLoop, _, span, _ => .breakStmt span
termination_by structural k => k

end

end Premises
end StaticTyping
