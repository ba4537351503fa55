import StaticTyping.Proofs.Placement.Rules

/-!
# Keywords in trees

The check of a tree heeds the keywords in it, one case for each form.
-/

namespace StaticTyping

open CheckM Source

namespace Placement

variable {env : Env}

/-!
# As many methods as there are
-/

theorem length_of_gives_collect {α : Type} {xs : List (CheckM α)} {as : List α}
    (h : (CheckM.collect xs).MayGive env as) : as.length = xs.length := by
  rcases h with ⟨s, t, h⟩
  induction xs generalizing as s with
  | nil =>
      cases h
      rfl
  | cons x xs ih =>
      rcases bind_apply_eq_ok.mp h with ⟨a, s', _, hrest⟩
      rcases bind_apply_eq_ok.mp hrest with ⟨as', s'', has, hpure⟩
      cases hpure
      exact congrArg Nat.succ (ih s' has)

theorem length_methodHeads (ms : List Source.Method) :
    (Checker.methodHeads ms).length = ms.length := by
  induction ms with
  | nil => rfl
  | cons m ms ih =>
      rcases m with ⟨h, body, span⟩
      exact congrArg Nat.succ ih

theorem length_methodBodies (ms : List Source.Method) :
    (Checker.methodBodies ms).length = ms.length := by
  induction ms with
  | nil => rfl
  | cons m ms ih =>
      rcases m with ⟨⟨name, visibility, ps, ret⟩, body, span⟩
      exact congrArg Nat.succ ih

theorem length_of_gives_classOf {d : Source.ClassDecl} {c : ClassTy}
    (h : (Checker.classOf d).MayGive env c) : c.methods.length = d.methods.length := by
  rcases d with ⟨name, visibility, ps, ms, implements⟩
  rcases h with ⟨s, t, h⟩
  rcases bind_apply_eq_ok.mp h with ⟨params, s₁, _, h₁⟩
  rcases bind_apply_eq_ok.mp h₁ with ⟨methods, s₂, hmethods, h₂⟩
  rcases bind_apply_eq_ok.mp h₂ with ⟨interfaces, s₃, _, hpure⟩
  cases hpure
  exact (length_of_gives_collect ⟨s₁, s₂, hmethods⟩).trans (length_methodHeads ms)

/-!
# Trees
-/

theorem keywords_of_adopted {around : List Construct} {e : Source.Expr} {ty : Ty}
    {literal : Typed.Expr} (h : adopted? e ty = some literal) : e.keywords around = [] := by
  rcases e with ⟨kind, span⟩
  unfold adopted? at h
  split at h
  next hkind =>
    have hkind : kind = .list [] := hkind
    subst hkind
    rfl
  next hkind =>
    have hkind : kind = .map [] := hkind
    subst hkind
    rfl
  next => cases h

theorem operandOf {around : List Construct} {e : Source.Expr} {check : CheckM Typed.Expr}
    (h : (Grading.exprs env around).Records (e.keywords around) check) :
    (Grading.exprs env around).Operand (e.keywords around) (.ofExpr e check) :=
  Grading.operand h keywords_of_adopted

theorem keywords_of_var {around : List Construct} {e : Source.Expr} {name : Ident} {span : Span}
    (h : e = ⟨.var name, span⟩) : e.keywords around = [] := by
  rw [h]
  rfl

mutual

theorem expr : ∀ (e : Source.Expr) (around : List Construct),
    (Grading.exprs env around).Records (e.keywords around) (Checker.expr e)
  | ⟨kind, span⟩, around => by
      have hkind := exprKind kind span around
      unfold Checker.expr
      split
      · exact hkind
      · exact Heeds.inExpr _ hkind fun _ hst => ⟨hst.jumps, hst.this⟩
termination_by structural e => e

theorem exprKind : ∀ (k : Source.ExprKind) (span : Span) (around : List Construct),
    (Grading.exprs env around).Records (k.keywords around span) (Checker.exprKind k span)
  | .int _, _, _ | .float _, _, _ | .string _, _, _ | .char _, _, _ | .bool _, _, _
  | .nil, _, _ => .pure _
  | .list items, span, around => Grading.listLiteral (operands items around) span
  | .map es, span, around => Grading.mapLiteral (entries es around) span
  | .var name, _, around =>
      ((Grading.exprs env around).variableTy name).before fun _ => .pure _
  | .this, span, _ => thisExpr span
  | .assign name value, _, around =>
      ((Grading.exprs env around).valueOf name.name name.line).before fun _ =>
        ((operandOf (expr value around)).confirm _).followed fun _ => .pure _
  | .increment e, _, around =>
      (expr e around).followed fun _ => (Grading.Records.require _ _ rfl).before fun _ => .pure _
  | .decrement e, _, around =>
      (expr e around).followed fun _ => (Grading.Records.require _ _ rfl).before fun _ => .pure _
  | .binary left _ right, _, around =>
      (expr left around).seq fun _ =>
        ((operandOf (expr right around)).confirm _).followed fun _ => .pure _
  | .logical left _ right, _, around =>
      (expr left around).seq fun _ =>
        ((operandOf (expr right around)).confirm _).followed fun _ => .pure _
  | .unary _ e, _, around =>
      (expr e around).followed fun _ => (Grading.Records.require _ _ rfl).before fun _ => .pure _
  | .group e, _, around => (expr e around).followed fun _ => .pure _
  | .is value interface, span, around => Grading.isTest (expr value around) interface span
  | .call callee args callSpan, _, around =>
      (Grading.call callee (expr callee around) (arguments args around) callSpan).followed
        fun _ => .pure _
  | .get object name, _, around =>
      (Grading.member (expr object around) keywords_of_var name).followed fun _ => .pure _
  | .set object name value, _, around =>
      (Grading.settableMember (expr object around) keywords_of_var name).seq fun _ =>
        ((operandOf (expr value around)).confirm _).followed fun _ => .pure _
  | .index object index, _, around =>
      (expr object around).seq fun _ => (Grading.Records.orFail _ _ rfl).before fun _ =>
        (expr index around).followed fun _ => (Grading.Records.require _ _ rfl).before fun _ =>
          .pure _
  | .slice object lower upper, span, around => by
      show (Grading.exprs env around).Records (object.keywords around ++ lower.keywords around ++
        upper.keywords around) (sliceExpr _ _ _ span)
      rw [List.append_assoc]
      exact (expr object around).seq fun _ => (Grading.Records.orFail _ _ rfl).before fun _ =>
        (expr lower around).seq fun _ => (expr upper around).followed fun _ =>
          (Grading.Records.require _ _ rfl).before fun _ =>
            (Grading.Records.require _ _ rfl).before fun _ => .pure _
  | .block b, _, around => (blockOf b around).followed fun _ => .pure _
  | .cond condition thenBranch otherwise, span, around => by
      show (Grading.exprs env around).Records (condition.keywords around ++
        thenBranch.keywords around ++ Expr.optionKeywords around otherwise) (condExpr _ _ _ span)
      rw [List.append_assoc]
      exact ((operandOf (expr condition around)).confirm _).seq fun _ =>
        (blockOf thenBranch around).seq fun thenBranch =>
          (Grading.elseBranch thenBranch.ty (exprOption otherwise around)).followed fun _ =>
            .pure _
  | .lambda ps ret body, span, around =>
      (Grading.signature (params ps around) ret span.line).seq fun sig =>
        (functionBody sig (blockOf body (.function :: around)) span.line
          fun _ hst => hst.enter rfl rfl (by decide)).followed fun _ => .pure _
termination_by structural k => k

theorem operands : ∀ (es : List Source.Expr) (around : List Construct),
    Adds (Grading.exprs env around).Operand (Expr.allKeywords around es) (Checker.operands es)
  | [], _ => .nil
  | e :: es, around => .cons (operandOf (expr e around)) (operands es around)
termination_by structural es => es

theorem entries : ∀ (es : List Source.Entry) (around : List Construct),
    Adds (Grading.exprs env around).Entry (Entry.allKeywords around es) (Checker.entries es)
  | [], _ => .nil
  | ⟨key, value⟩ :: es, around =>
      .cons ⟨_, _, rfl, operandOf (expr key around), operandOf (expr value around)⟩
        (entries es around)
termination_by structural es => es

theorem arguments : ∀ (args : List Source.Arg) (around : List Construct),
    Adds (fun os a => (Grading.exprs env around).Operand os a.value) (Arg.allKeywords around args)
      (Checker.arguments args)
  | [], _ => .nil
  | ⟨_, value⟩ :: args, around => .cons (operandOf (expr value around)) (arguments args around)
termination_by structural args => args

theorem exprOption : ∀ (e : Option Source.Expr) (around : List Construct),
    AddsOption (Grading.exprs env around).Records (Expr.optionKeywords around e)
      (Checker.exprOption e)
  | none, _ => .none
  | some e, around => .some (expr e around)
termination_by structural e => e

theorem operandOption : ∀ (e : Option Source.Expr) (around : List Construct),
    AddsOption (Grading.exprs env around).Operand (Expr.optionKeywords around e)
      (Checker.operandOption e)
  | none, _ => .none
  | some e, around => .some (operandOf (expr e around))
termination_by structural e => e

theorem defaultOption : ∀ (e : Option Source.Expr) (around : List Construct),
    AddsOption (fun os d => (Grading.exprs env around).Operand os d.2)
      (Expr.optionKeywords around e) (Checker.defaultOption e)
  | none, _ => .none
  | some e, around => .some (operandOf (expr e around))
termination_by structural e => e

theorem params : ∀ (ps : List Source.Param) (around : List Construct),
    Adds (Grading.exprs env around).Records (Param.allKeywords around ps) (Checker.params ps)
  | [], _ => .nil
  | ⟨name, ty, variadic, default⟩ :: ps, around =>
      .cons (Grading.param name ty variadic (defaultOption default around)) (params ps around)
termination_by structural ps => ps

theorem head : ∀ (h : Source.Head) (line : UInt32) (around : List Construct),
    (Grading.exprs env around).Records (h.keywords around) (Checker.head h line)
  | ⟨_, _, ps, ret⟩, line, around =>
      (Grading.signature (params ps around) ret line).followed fun _ => .pure _
termination_by structural h => h

theorem blockOf : ∀ (b : Source.Block) (around : List Construct),
    (Grading.exprs env around).Records (b.keywords around) (Checker.blockOf b)
  | ⟨ss, span⟩, around => block (stmts ss (.block :: around)) span
termination_by structural b => b

theorem methodHeads : ∀ (ms : List Source.Method) (around : List Construct),
    Adds (Grading.exprs env around).Records (Method.headKeywords around ms)
      (Checker.methodHeads ms)
  | [], _ => .nil
  | ⟨h, _, span⟩ :: ms, around => .cons (head h span.line around) (methodHeads ms around)
termination_by structural ms => ms

theorem methodBodies : ∀ (ms : List Source.Method) (around : List Construct),
    Adds (fun os check => ∀ f, (Grading.heeding env Stacks.InClass).Records os (check f))
      (Method.bodyKeywords around ms) (Checker.methodBodies ms)
  | [], _ => .nil
  | ⟨⟨name, _, _, _⟩, body, span⟩ :: ms, around =>
      .cons (fun f => functionOf name (blockOf body (.method :: around)) span.line f
        fun _ hst => hst.enter .function rfl) (methodBodies ms around)
termination_by structural ms => ms

theorem requirements : ∀ (rs : List Source.Requirement) (around : List Construct),
    Adds (Grading.exprs env around).Records (Requirement.allKeywords around rs)
      (Checker.requirements rs)
  | [], _ => .nil
  | ⟨h, span⟩ :: rs, around => .cons (head h span.line around) (requirements rs around)
termination_by structural rs => rs

theorem classOf : ∀ (d : Source.ClassDecl) (around : List Construct),
    (Grading.exprs env around).Records (d.headKeywords around) (Checker.classOf d)
  | ⟨name, visibility, ps, ms, implements⟩, around =>
      Grading.classHead name visibility (params ps around) (methodHeads ms around) implements
termination_by structural d => d

theorem classWith : ∀ (d : Source.ClassDecl) (around : List Construct) {os : List Occurrence}
    {sig : CheckM ClassTy}, (Grading.stmts env around).Records os sig →
    (∀ c, sig.MayGive env c → c.methods.length = d.methods.length) → ∀ span,
    (Grading.stmts env around).Records (os ++ d.bodyKeywords around)
      (Checker.classWith d sig span)
  | ⟨name, _, _, ms, _⟩, around, _, _, hsig, hlength, span =>
      classDecl name hsig (methodBodies ms (.classDecl :: around))
        (fun c hc => (hlength c hc).trans (length_methodBodies ms).symm) span
termination_by structural d => d

theorem interfaceOf : ∀ (d : Source.InterfaceDecl) (around : List Construct),
    (Grading.exprs env around).Records (d.keywords around) (Checker.interfaceOf d)
  | ⟨name, visibility, rs⟩, around =>
      Grading.interfaceHead name visibility (requirements rs around)
termination_by structural d => d

theorem bindingOf : ∀ (d : Source.Binding) (span : Span) (around : List Construct),
    (Grading.stmts env around).Records (d.keywords around) (Checker.bindingOf d span)
  | ⟨name, isMutable, written, init⟩, span, around => by
      have hvalue := Grading.bindingValue name written
        (operandOption init (.binding :: around)) span
      exact Heeds.inStmt .binding
        (hvalue.followed fun bound => (declare name.name bound.1).before fun _ => .pure _)
        fun _ hst => hst.toAt.enter rfl rfl (by decide)
termination_by structural d => d

theorem stmt : ∀ (s : Source.Stmt) (around : List Construct),
    (Grading.stmts env around).Records (s.keywords around) (Checker.stmt s)
  | ⟨kind, span⟩, around => stmtKind kind span around
termination_by structural s => s

theorem stmtOption : ∀ (s : Option Source.Stmt) (around : List Construct),
    AddsOption (Grading.stmts env around).Records (Stmt.optionKeywords around s)
      (Checker.stmtOption s)
  | none, _ => .none
  | some s, around => .some (stmt s around)
termination_by structural s => s

theorem stmts : ∀ (ss : List Source.Stmt) (around : List Construct),
    Adds (Grading.stmts env around).Records (Stmt.allKeywords around ss) (Checker.stmts ss)
  | [], _ => .nil
  | s :: ss, around => .cons (stmt s around) (stmts ss around)
termination_by structural ss => ss

theorem stmtKind : ∀ (k : Source.StmtKind) (span : Span) (around : List Construct),
    (Grading.stmts env around).Records (k.keywords around span) (Checker.stmtKind k span)
  | .defer callee args callSpan, _, around =>
      have hcall := Grading.call callee (expr callee (.defer :: around))
        (arguments args (.defer :: around)) callSpan
      Heeds.inStmt .defer (hcall.followed fun _ => .pure _)
        fun _ hst => hst.toAt.enter rfl rfl (by decide)
  | .expr value, _, around => (inStmts (expr value around)).followed fun _ => .pure _
  | .forLoop init condition increment body, span, around => by
      have hcondition := Grading.Records.optional
        ((operandOption condition (.loop :: around)).map fun ho => ho.confirm .bool)
      have hincrement := Grading.Records.optional
        ((operandOption increment (.loop :: around)).map fun ho => ho.check)
      have hbody := Grading.Records.collect (stmts body (.loop :: around))
      have hall := (Grading.Records.optional (stmtOption init (.loop :: around))).seq fun init =>
        (inStmts hcondition).seq fun condition => (inStmts hincrement).seq fun increment =>
          hbody.followed fun body => .pure (Typed.Stmt.mk (.forLoop init condition increment body)
            span)
      exact (Heeds.inScope hall).inStmt .forLoop
        fun _ hst => hst.enter rfl rfl (by decide) (by decide)
  | .forEach name iterable body, span, around => by
      have hbody := Grading.Records.collect (stmts body (.loop :: around))
      have helem : ∀ ty : Ty, (Grading.stmts env (.loop :: around)).Records []
          (CheckM.orFail ty.element? (.notIterable ty) span.line) :=
        fun ty => .orFail _ _ rfl
      have hall := (inStmts (expr iterable (.loop :: around))).seq fun iterable =>
        (helem iterable.ty).before fun elem => (declare name.name elem).before fun _ =>
          hbody.followed fun body => .pure (Typed.Stmt.mk (.forEach name iterable body) span)
      exact (Heeds.inScope hall).inStmt .forEach
        fun _ hst => hst.enter rfl rfl (by decide) (by decide)
  | .whileLoop condition body, span, around => by
      have hbody := Grading.Records.collect (stmts body (.loop :: around))
      have hall := (inStmts ((operandOf (expr condition (.loop :: around))).confirm .bool)).seq
        fun condition => hbody.followed fun body =>
          .pure (Typed.Stmt.mk (.whileLoop condition body) span)
      exact (Heeds.inScope hall).inStmt .whileLoop
        fun _ hst => hst.enter rfl rfl (by decide) (by decide)
  | .function h body, span, around =>
      functionDecl h.name (inStmts (head h span.line around)) (blockOf body (.function :: around))
        span
  | .binding d, span, around => bindingOf d span around
  | .moduleName _, _, _ => .pure _
  | .ret value, span, around => by
      have hvalue := Grading.Records.optional
        ((operandOption value (.ret :: around)).map fun ho => ho.check)
      exact Heeds.inStmt .ret (hvalue.followed fun value => .pure (Typed.Stmt.mk (.ret value) span))
        fun _ hst => hst.toAt.enter rfl rfl (by decide)
  | .yield value, span, around => yieldStmt (inStmts (expr value around)) span
  | .classDecl d, span, around =>
      classWith d around (inStmts (classOf d around)) (fun _ => length_of_gives_classOf) span
  | .interfaceDecl d, _, around =>
      (inStmts (interfaceOf d around)).followed fun i =>
        (declareAll (interfaceBindings i)).before fun _ => .pure _
  | .importOne package alias?, span, _ =>
      (importModule ⟨package, alias?, span⟩).before fun _ => .pure _
  | .importMany imports, span, _ => importsStmt imports span
  | .comment _, _, _ => .pure _
  | .continueLoop, span, _ => continueStmt span
  | .breakLoop, span, _ => breakStmt span
termination_by structural k => k

end

end Placement
end StaticTyping
