import StaticTyping.Proofs.Elaboration.Rules

/-!
# Trees

The check of a source tree gives a typed tree that stands for it.
-/

namespace StaticTyping

open CheckM Source

/-- What the check of a tree rests on: loading keeps interfaces called by their names, and under a
condition the names of variables and parameters are such as variables may have. -/
structure Naming (vars : String → Bool) (env : Env) (c : Source.Condition) : Prop where
  load : CheckM.Gives.LoaderCalls vars env.load
  binding : ∀ {d}, c.stmt (.binding d) → vars d.name.name
  forEach : ∀ {name iterable body}, c.stmt (.forEach name iterable body) → vars name.name
  params : ∀ {ps}, c.params ps → ∀ p ∈ ps, vars p.name.name

variable {vars : String → Bool} {env : Env} {c : Source.Condition}

namespace Naming

theorem paramNames (H : Naming vars env c) {ps : List Source.Param}
    {params : List StaticTyping.Param} (h : List.Forall₂ (Source.Param.Elaborates vars) ps params)
    (hps : Met (c.params ps)) : ∀ p ∈ params, vars p.name := by
  have hnames := H.params hps
  clear hps
  induction h with
  | nil => exact fun p hp => absurd hp List.not_mem_nil
  | cons hparam _ ih =>
      rcases List.forall_mem_cons.mp hnames with ⟨hfirst, hrest⟩
      intro p hp
      rcases List.mem_cons.mp hp with rfl | hp
      · cases hparam
        exact hfirst
      · exact ih hrest p hp

theorem headNames (H : Naming vars env c) {d : Source.Head} {f : NamedFunction}
    (h : d.Elaborates vars f) (hd : Met (d.meets c)) : ∀ p ∈ f.sig.params, vars p.name := by
  cases h with
  | intro hparams => exact H.paramNames hparams hd.left.left

open CheckM.Gives

mutual

theorem expr (H : Naming vars env c) : ∀ e : Source.Expr,
    Met (e.meets c) → (Checker.expr e).Gives vars env (e.Elaborates vars)
  | ⟨kind, span⟩, h => by
      have hkind := H.exprKind kind h span
      unfold Checker.expr
      split
      · exact hkind
      · exact inExpr _ hkind
termination_by structural e => e

theorem exprKind (H : Naming vars env c) : ∀ k : Source.ExprKind,
    Met (k.meets c) → ∀ span,
    (Checker.exprKind k span).Gives vars env (Source.Expr.Elaborates vars ⟨k, span⟩)
  | .int _, _, _ => .pure (.intro .int)
  | .float _, _, _ => .pure (.intro .float)
  | .string _, _, _ => .pure (.intro .string)
  | .char _, _, _ => .pure (.intro .char)
  | .bool _, _, _ => .pure (.intro .bool)
  | .nil, _, _ => .pure (.intro .nil)
  | .list items, h, span => listLiteral (H.operands items h.right) span
  | .map es, h, span => mapLiteral (H.entries es h.right) span
  | .var name, _, _ => (Gives.variableTy name).bind fun _ _ => .pure (.intro .var)
  | .this, _, _ => anyView.bind fun _ _ => orFail.bind fun _ _ => .pure (.intro .this)
  | .assign name value, h, _ =>
      (Gives.valueOf name.name name.line).bind fun _ _ =>
        ((operand (H.expr value h.right)).confirm _).bind fun _ hvalue =>
          .pure (.intro (.assign hvalue))
  | .increment e, h, _ =>
      (H.expr e h.right).bind fun _ he => require.bind fun _ _ => .pure (.intro (.increment he))
  | .decrement e, h, _ =>
      (H.expr e h.right).bind fun _ he => require.bind fun _ _ => .pure (.intro (.decrement he))
  | .binary left _ right, h, _ =>
      (H.expr left h.left.right).bind fun _ hleft =>
        ((operand (H.expr right h.right)).confirm _).bind fun _ hright =>
          .pure (.intro (.binary hleft hright))
  | .logical left _ right, h, _ =>
      (H.expr left h.left.right).bind fun _ hleft =>
        ((operand (H.expr right h.right)).confirm _).bind fun _ hright =>
          .pure (.intro (.logical hleft hright))
  | .unary _ e, h, _ =>
      (H.expr e h.right).bind fun _ he => require.bind fun _ _ => .pure (.intro (.unary he))
  | .group e, h, _ => (H.expr e h.right).bind fun _ he => .pure (.intro (.group he))
  | .is value name, h, span => isTest (H.expr value h.right) name span
  | .call callee args callSpan, h, _ =>
      (call (H.expr callee h.left.right) (H.arguments args h.right) callSpan).bind
        fun _ hcall => .pure (.intro (.call hcall))
  | .get object name, h, span => getExpr (H.expr object h.right) name span
  | .set object name value, h, span =>
      setExpr (H.expr object h.left.right) name (operand (H.expr value h.right)) span
  | .index object index, h, _ =>
      (H.expr object h.left.right).bind fun _ hobject => orFail.bind fun _ _ =>
        (H.expr index h.right).bind fun _ hindex => require.bind fun _ _ =>
          .pure (.intro (.index hobject hindex))
  | .slice object lower upper, h, _ =>
      (H.expr object h.left.left.right).bind fun _ hobject => orFail.bind fun _ _ =>
        (H.expr lower h.left.right).bind fun _ hlower =>
          (H.expr upper h.right).bind fun _ hupper => require.bind fun _ _ =>
            require.bind fun _ _ => .pure (.intro (.slice hobject hlower hupper))
  | .block b, h, _ => (H.blockOf b h.right).bind fun _ hb => .pure (.intro (.block hb))
  | .cond condition thenBranch otherwise, h, span =>
      condExpr (operand (H.expr condition h.left.left.right))
        (H.blockOf thenBranch h.left.right) (H.exprOption otherwise h.right) span
  | .lambda ps _ body, h, span =>
      (signature (H.paramList ps h.left.left.right)).bind fun _ hsig =>
        (functionBody (H.paramNames hsig.1 h.left.left.left.right)
          (H.blockOf body h.right) span.line).bind fun _ hbody =>
            .pure (.intro (.lambda hsig.1 hsig.2 hbody))
termination_by structural k => k

theorem operands (H : Naming vars env c) : ∀ es : List Source.Expr,
    Met (Expr.allMeet c es) →
    List.Forall₂ (Operand.Elaborates vars env) es (Checker.operands es)
  | [], _ => .nil
  | e :: es, h => .cons (operand (H.expr e h.left)) (H.operands es h.right)
termination_by structural es => es

theorem entries (H : Naming vars env c) : ∀ es : List Source.Entry,
    Met (Entry.allMeet c es) →
    List.Forall₂ (fun e o => o.1.Elaborates vars env e.key ∧ o.2.Elaborates vars env e.value) es
      (Checker.entries es)
  | [], _ => .nil
  | ⟨key, value⟩ :: es, h =>
      .cons ⟨operand (H.expr key h.left.left), operand (H.expr value h.left.right)⟩
        (H.entries es h.right)
termination_by structural es => es

theorem arguments (H : Naming vars env c) : ∀ args : List Source.Arg,
    Met (Arg.allMeet c args) →
    List.Forall₂ (Argument.Elaborates vars env) args (Checker.arguments args)
  | [], _ => .nil
  | ⟨_, value⟩ :: args, h =>
      .cons ⟨rfl, operand (H.expr value h.left)⟩ (H.arguments args h.right)
termination_by structural args => args

theorem exprOption (H : Naming vars env c) : ∀ e : Option Source.Expr,
    Met (Expr.optionMeets c e) →
    Option.Rel (fun e x => x.Gives vars env (Source.Expr.Elaborates vars e)) e
      (Checker.exprOption e)
  | none, _ => .none
  | some e, h => .some (H.expr e h)
termination_by structural e => e

theorem operandOption (H : Naming vars env c) : ∀ e : Option Source.Expr,
    Met (Expr.optionMeets c e) →
    Option.Rel (Operand.Elaborates vars env) e (Checker.operandOption e)
  | none, _ => .none
  | some e, h => .some (operand (H.expr e h))
termination_by structural e => e

theorem defaultOption (H : Naming vars env c) : ∀ e : Option Source.Expr,
    Met (Expr.optionMeets c e) →
    Option.Rel (fun e d => d.2.Elaborates vars env e) e (Checker.defaultOption e)
  | none, _ => .none
  | some e, h => .some (operand (H.expr e h))
termination_by structural e => e

theorem paramList (H : Naming vars env c) : ∀ ps : List Source.Param,
    Met (Param.allMeet c ps) →
    List.Forall₂ (fun p x => x.Gives vars env (Source.Param.Elaborates vars p)) ps
      (Checker.params ps)
  | [], _ => .nil
  | ⟨_, _, _, default⟩ :: ps, h =>
      .cons (param (H.defaultOption default h.left.right)) (H.paramList ps h.right)
termination_by structural ps => ps

theorem head (H : Naming vars env c) : ∀ d : Source.Head,
    Met (d.meets c) → ∀ line,
    (Checker.head d line).Gives vars env (Source.Head.Elaborates vars d)
  | ⟨_, _, ps, _⟩, h, _ =>
      (signature (H.paramList ps h.left.right)).bind fun ⟨_, _⟩ hsig => .pure (.intro hsig.1 hsig.2)
termination_by structural d => d

theorem blockOf (H : Naming vars env c) : ∀ b : Source.Block,
    Met (b.meets c) → (Checker.blockOf b).Gives vars env (b.Elaborates vars)
  | ⟨ss, span⟩, h => block (H.stmts ss h) span
termination_by structural b => b

theorem methodHeads (H : Naming vars env c) : ∀ ms : List Source.Method,
    Met (Method.allMeet c ms) →
    List.Forall₂ (fun m x => x.Gives vars env (Source.Head.Elaborates vars m.head)) ms
      (Checker.methodHeads ms)
  | [], _ => .nil
  | ⟨d, _, span⟩ :: ms, h =>
      .cons (H.head d h.left.left span.line) (H.methodHeads ms h.right)
termination_by structural ms => ms

theorem methodBodies (H : Naming vars env c) : ∀ ms : List Source.Method,
    Met (Method.allMeet c ms) →
    List.Forall₂ (Source.Method.Elaborating vars env) ms (Checker.methodBodies ms)
  | [], _ => .nil
  | ⟨⟨name, visibility, ps, ret⟩, body, span⟩ :: ms, h => by
      apply List.Forall₂.cons
      · intro f hf
        have hbody := functionOf name (H.headNames hf h.left.left)
          (H.blockOf body h.left.right) span.line
        apply hbody.mono
        rintro ⟨name', sig, body'⟩ ⟨hname, rfl, helaborates⟩
        have hname : name' = (Source.Head.mk name visibility ps ret).name := hname
        subst hname
        exact ⟨rfl, .intro hf helaborates⟩
      · exact H.methodBodies ms h.right
termination_by structural ms => ms

theorem requirements (H : Naming vars env c) : ∀ rs : List Source.Requirement,
    Met (Requirement.allMeet c rs) →
    List.Forall₂ (fun r x => x.Gives vars env (Source.Requirement.Elaborates vars r)) rs
      (Checker.requirements rs)
  | [], _ => .nil
  | ⟨d, span⟩ :: rs, h =>
      .cons ((H.head d h.left span.line).mono fun _ hf => .intro hf)
        (H.requirements rs h.right)
termination_by structural rs => rs

theorem classOf (H : Naming vars env c) : ∀ d : Source.ClassDecl,
    Met (d.meets c) → (Checker.classOf d).Gives vars env (d.Outlines vars)
  | ⟨_, _, ps, ms, names⟩, h =>
      classHead (H.paramList ps h.left.right) (H.methodHeads ms h.right) names
termination_by structural d => d

theorem classWith (H : Naming vars env c) : ∀ d : Source.ClassDecl,
    Met (d.meets c) → ∀ {sig : CheckM ClassTy},
    sig.Gives vars env (d.Outlines vars) → ∀ span,
    (Checker.classWith d sig span).Gives vars env
      (Source.Stmt.Elaborates vars ⟨.classDecl d, span⟩)
  | ⟨_, _, _, ms, _⟩, h, _, hsig, span => classDecl hsig (H.methodBodies ms h.right) span
termination_by structural d => d

theorem interfaceOf (H : Naming vars env c) : ∀ d : Source.InterfaceDecl,
    Met (d.meets c) → ∀ span,
    (CheckM.interfaceDecl (Checker.interfaceOf d) span).Gives vars env
      (Source.Stmt.Elaborates vars ⟨.interfaceDecl d, span⟩)
  | ⟨_, _, rs⟩, h, span => interfaceDecl (H.requirements rs h) span
termination_by structural d => d

theorem bindingOf (H : Naming vars env c) : ∀ d : Source.Binding,
    Met (d.meets c) → vars d.name.name → ∀ span,
    (Checker.bindingOf d span).Gives vars env (Source.Stmt.Elaborates vars ⟨.binding d, span⟩)
  | ⟨_, _, _, init⟩, h, hname, span => Gives.binding (H.operandOption init h.right) span hname
termination_by structural d => d

theorem stmt (H : Naming vars env c) : ∀ s : Source.Stmt,
    Met (s.meets c) → (Checker.stmt s).Gives vars env (s.Elaborates vars)
  | ⟨kind, span⟩, h => H.stmtKind kind h span
termination_by structural s => s

theorem stmtOption (H : Naming vars env c) : ∀ s : Option Source.Stmt,
    Met (Stmt.optionMeets c s) →
    Option.Rel (fun s x => x.Gives vars env (Source.Stmt.Elaborates vars s)) s
      (Checker.stmtOption s)
  | none, _ => .none
  | some s, h => .some (H.stmt s h)
termination_by structural s => s

theorem stmts (H : Naming vars env c) : ∀ ss : List Source.Stmt,
    Met (Stmt.allMeet c ss) →
    List.Forall₂ (fun s x => x.Gives vars env (Source.Stmt.Elaborates vars s)) ss
      (Checker.stmts ss)
  | [], _ => .nil
  | s :: ss, h => .cons (H.stmt s h.left) (H.stmts ss h.right)
termination_by structural ss => ss

theorem stmtKind (H : Naming vars env c) : ∀ k : Source.StmtKind,
    Met (k.meets c) → ∀ span,
    (Checker.stmtKind k span).Gives vars env (Source.Stmt.Elaborates vars ⟨k, span⟩)
  | .defer callee args callSpan, h, _ =>
      inStmt _ ((call (H.expr callee h.left.right) (H.arguments args h.right)
        callSpan).bind fun _ hcall => .pure (.intro (.defer hcall)))
  | .expr value, h, _ => (H.expr value h.right).bind fun _ he => .pure (.intro (.expr he))
  | .forLoop init condition increment body, h, span =>
      forLoop (H.stmtOption init h.left.left.left.right)
        (H.operandOption condition h.left.left.right)
        (H.operandOption increment h.left.right) (H.stmts body h.right) span
  | .forEach _ iterable body, h, span =>
      CheckM.Gives.forEach (H.forEach h.left.left) (H.expr iterable h.left.right)
        (H.stmts body h.right) span
  | .whileLoop condition body, h, span =>
      whileLoop (operand (H.expr condition h.left.right)) (H.stmts body h.right) span
  | .function d body, h, span =>
      functionDecl ((H.head d h.left.right span.line).mono fun _ hf =>
        ⟨hf, H.headNames hf h.left.right⟩) (H.blockOf body h.right) span
  | .binding d, h, span => H.bindingOf d h.right (H.binding h.left) span
  | .moduleName _, _, _ => .pure (.intro .moduleName)
  | .ret value, h, span => returnStmt (H.operandOption value h.right) span
  | .yield value, h, _ =>
      anyView.bind fun _ _ => require.bind fun _ _ => (H.expr value h.right).bind fun _ he =>
        .pure (.intro (.yield he))
  | .classDecl d, h, span => H.classWith d h.right (H.classOf d h.right) span
  | .interfaceDecl d, h, span => H.interfaceOf d h.right span
  | .importOne package alias?, _, span => by
      apply (importModule H.load ⟨package, alias?, span⟩).bind
      rintro _ rfl
      exact .pure (.intro .importOne)
  | .importMany imports, _, span => importsStmt H.load imports span
  | .comment _, _, _ => .pure (.intro .comment)
  | .continueLoop, _, _ =>
      anyView.bind fun _ _ => require.bind fun _ _ => .pure (.intro .continueLoop)
  | .breakLoop, _, _ => anyView.bind fun _ _ => require.bind fun _ _ => .pure (.intro .breakLoop)
termination_by structural k => k

end

theorem all (env : Env) : Naming (fun _ => true) env {} where
  load _ _ _ := Session.calls_all _
  binding _ := rfl
  forEach _ := rfl
  params _ _ _ := rfl

end Naming
end StaticTyping
