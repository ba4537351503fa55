import StaticTyping.Proofs.Omission.Rules

/-!
# Trees without an import

Where a package is left out, no part of the tree that was checked imports it.
-/

namespace StaticTyping

open CheckM Source

def Source.Condition.without (package : String) : Source.Condition where
  stmt
    | .importOne imported _ => imported.name != package
    | .importMany imports => imports.all (·.package.name != package)
    | _ => true

theorem CheckM.meets_of_adopted {package : String} {e : Source.Expr} {ty : Ty}
    {literal : Typed.Expr} (h : adopted? e ty = some literal) :
    Met (e.meets (.without package)) := by
  rcases e with ⟨kind, span⟩
  unfold adopted? at h
  split at h
  next hkind =>
    have hkind : kind = .list [] := hkind
    subst hkind
    rfl
  next hkind =>
    have hkind : kind = .map [] := hkind
    subst hkind
    rfl
  next => cases h

theorem Source.Param.allMeet_of_forall {package : String} {ps : List Source.Param}
    (h : ∀ p ∈ ps, ∀ x ∈ p.default, Met (x.meets (.without package))) :
    Met (Param.allMeet (.without package) ps) := by
  induction ps with
  | nil => rfl
  | cons p ps ih =>
      rcases p with ⟨name, ty, variadic, default⟩
      rcases List.forall_mem_cons.mp h with ⟨hp, hps⟩
      exact (Met.and rfl (Expr.optionMeets_of_forall hp)).and (ih hps)

theorem Source.Condition.without_written (package : String) (ret : Option Ty) :
    Met (ret.all (Condition.without package).ty) := by
  cases ret <;> rfl

theorem Source.Condition.without_names (package : String) (names : List Ident) :
    Met (names.all fun i => (Condition.without package).name i.name) :=
  List.all_eq_true.mpr fun _ _ => rfl

theorem Source.ClassDecl.meets_of_parts {package : String} {d : Source.ClassDecl}
    (h : ((∀ p ∈ d.params, ∀ e ∈ p.default, Met (e.meets (.without package))) ∧
      ∀ m ∈ d.methods, Met (m.head.meets (.without package))) ∧
      ∀ m ∈ d.methods, Met (m.body.meets (.without package))) :
    Met (d.meets (.without package)) := by
  rcases d with ⟨name, visibility, params, methods, implements⟩
  exact (((Condition.without_names package implements).and rfl).and
    (Param.allMeet_of_forall h.1.1)).and (Method.allMeet_of_forall h.1.2 h.2)

namespace Omission

variable {O : Omission}

theorem importsStmt (imports : List Source.Import) (span : Span) :
    O.Omits (CheckM.importsStmt imports span) fun _ =>
      Met (imports.all (·.package.name != O.package)) := by
  have hall : O.Omits (CheckM.collect (imports.map CheckM.importModule))
      (List.Forall₂ (fun (i : Source.Import) _ => i.package.name ≠ O.package) imports) := by
    apply Omits.collect
    rw [List.forall₂_map_right_iff]
    exact List.forall₂_same.mpr fun i _ => importModule i
  exact hall.bind fun _ => .pure fun h =>
    List.all_eq_true.mpr fun i hi => bne_iff_ne.mpr (forall_of_forall₂ h i hi)

theorem operandOf {e : Source.Expr} {check : CheckM Typed.Expr}
    (h : O.Omits check fun _ => Met (e.meets (.without O.package))) :
    O.Operand (.ofExpr e check) (Met (e.meets (.without O.package))) :=
  operand h meets_of_adopted

theorem memberOf {e : Source.Expr} {check : CheckM Typed.Expr}
    (h : O.Omits check fun _ => Met (e.meets (.without O.package))) (name : Ident) :
    O.Omits (CheckM.member e check name) fun _ => Met (e.meets (.without O.package)) :=
  member h (fun he => by rw [he]; rfl) name

mutual

theorem expr : ∀ e : Source.Expr,
    O.Omits (Checker.expr e) fun _ => Met (e.meets (.without O.package))
  | ⟨kind, span⟩ => by
      have hkind := exprKind kind span
      unfold Checker.expr
      split
      · exact hkind
      · exact Omits.inExpr _ hkind
termination_by structural e => e

theorem exprKind : ∀ (k : Source.ExprKind) (span : Span),
    O.Omits (Checker.exprKind k span) fun _ => Met (k.meets (.without O.package))
  | .int _, _ | .float _, _ | .string _, _ | .char _, _ | .bool _, _ | .nil, _ => .pure rfl
  | .list items, span =>
      (listLiteral (operands items) span).mono fun _ h => Met.and rfl (Expr.allMeet_of_forall h)
  | .map es, span =>
      (mapLiteral (entries es) span).mono fun _ h => Met.and rfl (Entry.allMeet_of_forall h)
  | .var name, _ => keepsThen (O.frame.closure.variableTy name) fun _ => .pure rfl
  | .this, span =>
      (ofKeeps (O.frame.closure.exprKind .this (.inl trivial) span)).mono fun _ _ => rfl
  | .assign _ value, _ =>
      keepsThen (O.frame.closure.valueOf _ _) fun _ =>
        ((operandOf (expr value)).confirm _).bind fun _ =>
        .pure fun h => Met.and rfl h
  | .increment e, _ =>
      thenKeeps ((expr e).mono fun _ h => Met.and rfl h) fun _ =>
        (Closure.Has.require _ _ _).bind fun _ => .pure _
  | .decrement e, _ =>
      thenKeeps ((expr e).mono fun _ h => Met.and rfl h) fun _ =>
        (Closure.Has.require _ _ _).bind fun _ => .pure _
  | .binary left _ right, _ =>
      (expr left).bind fun _ => ((operandOf (expr right)).confirm _).bind fun _ =>
        .pure fun hright hleft => (Met.and rfl hleft).and hright
  | .logical left _ right, _ =>
      (expr left).bind fun _ => ((operandOf (expr right)).confirm _).bind fun _ =>
        .pure fun hright hleft => (Met.and rfl hleft).and hright
  | .unary _ e, _ =>
      thenKeeps ((expr e).mono fun _ h => Met.and rfl h) fun _ =>
        (Closure.Has.require _ _ _).bind fun _ => .pure _
  | .group e, _ => (expr e).bind fun _ => .pure fun h => Met.and rfl h
  | .is value interface, span =>
      thenKeeps ((expr value).mono fun _ h => Met.and rfl h) fun value =>
        O.frame.closure.isTest (.pure value) interface span
  | .call callee args callSpan, _ =>
      (call callee (expr callee) (arguments args) callSpan).bind fun _ =>
        .pure fun h => (Met.and rfl h.1).and (Arg.allMeet_of_forall h.2)
  | .get object name, _ =>
      (memberOf (expr object) name).bind fun _ => .pure fun h => Met.and rfl h
  | .set object name value, _ =>
      ((memberOf (expr object) name).mapCause _).bind fun _ =>
        ((operandOf (expr value)).confirm _).bind fun _ =>
          .pure fun hvalue hobject => (Met.and rfl hobject).and hvalue
  | .index object index, _ =>
      (expr object).bind fun _ => keepsThen (.orFail _ _ _) fun _ => (expr index).bind fun _ =>
        keepsThen (.require _ _ _) fun _ => .pure fun hindex hobject =>
          (Met.and rfl hobject).and hindex
  | .slice object lower upper, _ =>
      (expr object).bind fun _ => keepsThen (.orFail _ _ _) fun _ => (expr lower).bind fun _ =>
        (expr upper).bind fun _ => keepsThen (.require _ _ _) fun _ =>
          keepsThen (.require _ _ _) fun _ => .pure fun hupper hlower hobject =>
            ((Met.and rfl hobject).and hlower).and hupper
  | .block b, _ => (blockOf b).bind fun _ => .pure fun h => Met.and rfl h
  | .cond condition thenBranch otherwise, span =>
      (condExpr (operandOf (expr condition)) (blockOf thenBranch) (exprOption otherwise) span).mono
        fun _ h => ((Met.and rfl h.1).and h.2.1).and (Expr.optionMeets_of_forall h.2.2)
  | .lambda ps ret body, span =>
      (signature (params ps) ret span.line).bind fun sig =>
        (functionBody sig (blockOf body) span.line).bind fun _ => .pure fun hbody hparams =>
          (((Met.and rfl rfl).and (Param.allMeet_of_forall hparams)).and
            (Condition.without_written O.package ret)).and hbody
termination_by structural k => k

theorem operands : ∀ es : List Source.Expr,
    List.Forall₂ (fun e o => O.Operand o (Met (e.meets (.without O.package)))) es
      (Checker.operands es)
  | [] => .nil
  | e :: es => .cons (operandOf (expr e)) (operands es)
termination_by structural es => es

theorem entries : ∀ es : List Source.Entry,
    List.Forall₂ (fun e o => O.Operand o.1 (Met (e.key.meets (.without O.package))) ∧
      O.Operand o.2 (Met (e.value.meets (.without O.package)))) es (Checker.entries es)
  | [] => .nil
  | ⟨key, value⟩ :: es => .cons ⟨operandOf (expr key), operandOf (expr value)⟩ (entries es)
termination_by structural es => es

theorem arguments : ∀ args : List Source.Arg,
    List.Forall₂ (fun a arg => O.Operand arg.value (Met (a.value.meets (.without O.package)))) args
      (Checker.arguments args)
  | [] => .nil
  | ⟨_, value⟩ :: args => .cons (operandOf (expr value)) (arguments args)
termination_by structural args => args

theorem exprOption : ∀ e : Option Source.Expr,
    Option.Rel (fun e x => O.Omits x fun _ => Met (e.meets (.without O.package))) e
      (Checker.exprOption e)
  | none => .none
  | some e => .some (expr e)
termination_by structural e => e

theorem operandOption : ∀ e : Option Source.Expr,
    Option.Rel (fun e o => O.Operand o (Met (e.meets (.without O.package)))) e
      (Checker.operandOption e)
  | none => .none
  | some e => .some (operandOf (expr e))
termination_by structural e => e

theorem defaultOption : ∀ e : Option Source.Expr,
    Option.Rel (fun e d => O.Operand d.2 (Met (e.meets (.without O.package)))) e
      (Checker.defaultOption e)
  | none => .none
  | some e => .some (operandOf (expr e))
termination_by structural e => e

theorem params : ∀ ps : List Source.Param,
    List.Forall₂ (fun p x => O.Omits x fun _ => ∀ e ∈ p.default, Met (e.meets (.without O.package)))
      ps (Checker.params ps)
  | [] => .nil
  | ⟨name, ty, variadic, default⟩ :: ps =>
      .cons (param name ty variadic (defaultOption default)) (params ps)
termination_by structural ps => ps

theorem head : ∀ (d : Source.Head) (line : UInt32),
    O.Omits (Checker.head d line) fun _ => Met (d.meets (.without O.package))
  | ⟨_, _, ps, ret⟩, line =>
      (signature (params ps) ret line).bind fun _ => .pure fun h =>
        (Met.and rfl (Param.allMeet_of_forall h)).and (Condition.without_written O.package ret)
termination_by structural d => d

theorem blockOf : ∀ b : Source.Block,
    O.Omits (Checker.blockOf b) fun _ => Met (b.meets (.without O.package))
  | ⟨ss, span⟩ => (block (stmts ss) span).mono fun _ h => Stmt.allMeet_of_forall h
termination_by structural b => b

theorem methodHeads : ∀ ms : List Source.Method,
    List.Forall₂ (fun m x => O.Omits x fun _ => Met (m.head.meets (.without O.package))) ms
      (Checker.methodHeads ms)
  | [] => .nil
  | ⟨d, _, span⟩ :: ms => .cons (head d span.line) (methodHeads ms)
termination_by structural ms => ms

theorem methodBodies : ∀ ms : List Source.Method,
    List.Forall₂ (fun m check => ∀ f, O.Omits (check f) fun _ =>
      Met (m.body.meets (.without O.package))) ms (Checker.methodBodies ms)
  | [] => .nil
  | ⟨⟨name, _, _, _⟩, body, span⟩ :: ms =>
      .cons (functionOf name (blockOf body) span.line) (methodBodies ms)
termination_by structural ms => ms

theorem requirements : ∀ rs : List Source.Requirement,
    List.Forall₂ (fun r x => O.Omits x fun _ => Met (r.head.meets (.without O.package))) rs
      (Checker.requirements rs)
  | [] => .nil
  | ⟨d, span⟩ :: rs => .cons (head d span.line) (requirements rs)
termination_by structural rs => rs

theorem classOf : ∀ d : Source.ClassDecl,
    O.Omits (Checker.classOf d) fun sig => sig.methods.length = d.methods.length ∧
      (∀ p ∈ d.params, ∀ e ∈ p.default, Met (e.meets (.without O.package))) ∧
      ∀ m ∈ d.methods, Met (m.head.meets (.without O.package))
  | ⟨name, visibility, ps, ms, implements⟩ =>
      classHead name visibility (params ps) (methodHeads ms) implements
termination_by structural d => d

theorem classWith : ∀ (d : Source.ClassDecl) {sig : CheckM ClassTy} {P : Prop},
    (O.Omits sig fun sig => sig.methods.length = d.methods.length ∧ P) → ∀ span,
    O.Omits (Checker.classWith d sig span) fun _ =>
      P ∧ ∀ m ∈ d.methods, Met (m.body.meets (.without O.package))
  | ⟨name, _, _, ms, _⟩, _, _, hsig, span => classDecl name hsig (methodBodies ms) span
termination_by structural d => d

theorem interfaceOf : ∀ (d : Source.InterfaceDecl) (span : Span),
    O.Omits (CheckM.interfaceDecl (Checker.interfaceOf d) span) fun _ =>
      Met (d.meets (.without O.package))
  | ⟨name, visibility, rs⟩, span =>
      (interfaceDecl name visibility (requirements rs) span).mono fun _ h =>
        Requirement.allMeet_of_forall h
termination_by structural d => d

theorem bindingOf : ∀ (d : Source.Binding) (span : Span),
    O.Omits (Checker.bindingOf d span) fun _ => Met (d.meets (.without O.package))
  | ⟨name, isMutable, written, init⟩, span =>
      (binding name isMutable written (operandOption init) span).mono fun _ h =>
        (Condition.without_written O.package written).and (Expr.optionMeets_of_forall h)
termination_by structural d => d

theorem stmt : ∀ s : Source.Stmt,
    O.Omits (Checker.stmt s) fun _ => Met (s.meets (.without O.package))
  | ⟨kind, span⟩ => stmtKind kind span
termination_by structural s => s

theorem stmtOption : ∀ s : Option Source.Stmt,
    Option.Rel (fun s x => O.Omits x fun _ => Met (s.meets (.without O.package))) s
      (Checker.stmtOption s)
  | none => .none
  | some s => .some (stmt s)
termination_by structural s => s

theorem stmts : ∀ ss : List Source.Stmt,
    List.Forall₂ (fun s x => O.Omits x fun _ => Met (s.meets (.without O.package))) ss
      (Checker.stmts ss)
  | [] => .nil
  | s :: ss => .cons (stmt s) (stmts ss)
termination_by structural ss => ss

theorem stmtKind : ∀ (k : Source.StmtKind) (span : Span),
    O.Omits (Checker.stmtKind k span) fun _ => Met (k.meets (.without O.package))
  | .defer callee args callSpan, _ =>
      Omits.inStmt _ ((call callee (expr callee) (arguments args) callSpan).bind fun _ =>
        .pure fun h => (Met.and rfl h.1).and (Arg.allMeet_of_forall h.2))
  | .expr value, _ => (expr value).bind fun _ => .pure fun h => Met.and rfl h
  | .forLoop init condition increment body, _ =>
      Omits.inStmt _ <| Omits.inScope <| (Omits.optional (stmtOption init)).bind fun _ =>
        (optionalConfirm (operandOption condition) .bool).bind fun _ =>
          (optionalCheck (operandOption increment)).bind fun _ =>
            (Omits.collect (stmts body)).bind fun _ =>
              .pure fun hbody hincrement hcondition hinit =>
                (((Met.and rfl (Stmt.optionMeets_of_forall hinit)).and
                  (Expr.optionMeets_of_forall hcondition)).and
                  (Expr.optionMeets_of_forall hincrement)).and
                  (Stmt.allMeet_of_forall (forall_of_forall₂ hbody))
  | .forEach _ iterable body, _ =>
      Omits.inStmt _ <| Omits.inScope <| (expr iterable).bind fun _ =>
        keepsThen (.orFail _ _ _) fun _ => keepsThen (O.frame.declare _ _) fun _ =>
          (Omits.collect (stmts body)).bind fun _ => .pure fun hbody hiterable =>
            (Met.and rfl hiterable).and (Stmt.allMeet_of_forall (forall_of_forall₂ hbody))
  | .whileLoop condition body, _ =>
      Omits.inStmt _ <| Omits.inScope <| ((operandOf (expr condition)).confirm .bool).bind fun _ =>
        (Omits.collect (stmts body)).bind fun _ => .pure fun hbody hcondition =>
          (Met.and rfl hcondition).and (Stmt.allMeet_of_forall (forall_of_forall₂ hbody))
  | .function d body, span =>
      (functionDecl d.name (head d span.line) (blockOf body) span).mono fun _ h =>
        (Met.and rfl h.1).and h.2
  | .binding d, span => (bindingOf d span).mono fun _ h => Met.and rfl h
  | .moduleName _, _ => .pure rfl
  | .ret value, _ =>
      Omits.inStmt _ ((optionalCheck (operandOption value)).bind fun _ =>
        .pure fun h => Met.and rfl (Expr.optionMeets_of_forall h))
  | .yield value, _ =>
      keepsThen (.view _) fun _ => keepsThen (.require _ _ _) fun _ =>
        (expr value).bind fun _ => .pure fun h => Met.and rfl h
  | .classDecl d, span =>
      (classWith d (classOf d) span).mono fun _ h => Met.and rfl (ClassDecl.meets_of_parts h)
  | .interfaceDecl d, span => (interfaceOf d span).mono fun _ h => Met.and rfl h
  | .importOne imported alias?, span =>
      (importModule ⟨imported, alias?, span⟩).bind fun _ => .pure fun h => bne_iff_ne.mpr h
  | .importMany imports, span => importsStmt imports span
  | .comment _, _ => .pure rfl
  | .continueLoop, span =>
      (ofKeeps (O.frame.closure.stmtKind .continueLoop (.inl trivial) span)).mono fun _ _ => rfl
  | .breakLoop, span =>
      (ofKeeps (O.frame.closure.stmtKind .breakLoop (.inl trivial) span)).mono fun _ _ => rfl
termination_by structural k => k

end

end Omission
end StaticTyping
