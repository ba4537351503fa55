import StaticTyping.Proofs.Elaboration.Tree
import StaticTyping.Proofs.Pairing.Forms

/-!
# Trees in two runs

The check of a tree in one run, and the check of the same tree in another, or of the tree without
its comments.
-/

namespace StaticTyping

open CheckM Source

/-!
# Blocks that close with a value
-/

def Typed.Stmt.gives : Typed.Stmt → Bool
  | ⟨.ret (some _), _⟩ | ⟨.yield _, _⟩ => true
  | _ => false

namespace Source.Stmt.Elaborates

variable {vars : String → Bool} {s : Source.Stmt} {t : Typed.Stmt}

theorem isComment_eq (h : s.Elaborates vars t) : s.isComment = t.isComment := by
  cases h with
  | intro hk => cases hk <;> rfl

theorem gives_eq (h : s.Elaborates vars t) : s.gives = t.gives := by
  cases h with
  | intro hk =>
      cases hk with
      | ret hvalue => cases hvalue <;> rfl
      | _ => rfl

end Source.Stmt.Elaborates

section Lists

variable {α β : Type}

theorem getLast?_filter {p : α → Bool} {as : List α} (h : as.getLast?.all p) :
    (as.filter p).getLast? = as.getLast? := by
  cases hlast : as.getLast? with
  | none =>
      rw [List.getLast?_eq_none_iff.mp hlast]
      rfl
  | some a =>
      rcases List.getLast?_eq_some_iff.mp hlast with ⟨front, rfl⟩
      have ha : p a := by
        rw [hlast] at h
        exact h
      rw [List.filter_append, List.filter_cons_of_pos ha, List.filter_nil, List.getLast?_concat]

theorem getLast?_of_forall₂ {R : α → β → Prop} {as : List α} {bs : List β}
    (h : List.Forall₂ R as bs) : Option.Rel R as.getLast? bs.getLast? := by
  induction h with
  | nil => exact .none
  | cons hab htail ih =>
      cases htail with
      | nil => exact .some hab
      | cons => exact ih

theorem all_of_rel {R : α → β → Prop} {p : α → Bool} {q : β → Bool} {o : Option α} {o' : Option β}
    (h : Option.Rel R o o') (hpq : ∀ a b, R a b → p a = q b) : o.all p = o'.all q := by
  cases h with
  | none => rfl
  | some hab => exact hpq _ _ hab

end Lists

theorem CheckM.valueTyOf_eq_nil {ss : List Typed.Stmt} (h : ss.getLast?.all (!·.gives)) :
    valueTyOf ss = .nil := by
  unfold valueTyOf
  revert h
  cases ss.getLast? with
  | none => exact fun _ => rfl
  | some s =>
      intro h
      rcases s with ⟨kind, span⟩
      cases kind with
      | ret value =>
          cases value with
          | none => rfl
          | some e => cases h
      | yield e => cases h
      | _ => rfl

theorem Typed.Stmt.gives_of_isComment {s : Typed.Stmt} (h : s.isComment) : s.gives = false := by
  rcases s with ⟨kind, span⟩
  cases kind with
  | comment => rfl
  | _ => cases h

theorem Source.Block.closes_of_elaborates {vars : String → Bool} {b : Source.Block}
    (h : b.closes) {ss : List Typed.Stmt}
    (hss : List.Forall₂ (Source.Stmt.Elaborates vars) b.stmts ss) : Pairing.Closes ss := by
  have hcomment : ∀ (s : Source.Stmt) (t : Typed.Stmt), s.Elaborates vars t →
      (!s.isComment) = !t.isComment := fun _ _ ht => congrArg not ht.isComment_eq
  unfold Pairing.Closes
  -- a comment at the end gives no value; then the last statement before it must not either
  by_cases hlast : ss.getLast?.all (!·.isComment)
  · unfold valueTyOf
    rw [getLast?_filter hlast]
  · have hfiltered : (ss.filter (!·.isComment)).getLast?.all (!·.gives) := by
      rcases Bool.or_eq_true_iff.mp h with hclosed | hclosed
      · rw [all_of_rel (getLast?_of_forall₂ hss) hcomment] at hclosed
        exact absurd hclosed hlast
      · have hkept : List.Forall₂ (Source.Stmt.Elaborates vars) (b.stmts.filter (!·.isComment))
            (ss.filter (!·.isComment)) :=
          List.rel_filter (fun s t ht => iff_of_eq (congrArg (· = true) (hcomment s t ht))) hss
        have hgives := all_of_rel (getLast?_of_forall₂ hkept)
          fun _ _ ht => congrArg not ht.gives_eq
        rwa [← hgives]
    have hnone : ss.getLast?.all (!·.gives) := by
      cases hget : ss.getLast? with
      | none => rfl
      | some s =>
          rw [hget] at hlast
          have hs : s.isComment = true := by simpa using hlast
          show (!s.gives) = true
          rw [Typed.Stmt.gives_of_isComment hs]
          rfl
    rw [valueTyOf_eq_nil hnone, valueTyOf_eq_nil hfiltered]

namespace Pairing

variable {P : Pairing}

theorem stmts_closes {b : Source.Block} (h : b.closes) {s t : State} {ss : List Typed.Stmt}
    (hrun : CheckM.collect (Checker.stmts b.stmts) P.env s = (.ok ss, t)) : Closes ss := by
  have hgives := Gives.collect ((Naming.all P.env).stmts b.stmts
    (Condition.Vacuous.empty.ofStmts b.stmts)) s (Session.calls_all _)
  rw [hrun] at hgives
  exact Block.closes_of_elaborates h (hgives.2 ss rfl)

theorem exists_comment {s : Source.Stmt} (h : s.isComment) :
    ∃ text span, s = ⟨.comment text, span⟩ := by
  rcases s with ⟨kind, span⟩
  cases kind with
  | comment text => exact ⟨text, span, rfl⟩
  | _ => cases h

theorem comment_kept {s : Source.Stmt} (hmeets : Met (s.meets P.condition))
    (hs : (P.source && s.isComment) = false) :
    (P.source = false ∧ P.cut.comments = P.cut'.comments) ∨ s.isComment = false := by
  cases hcomment : s.isComment with
  | false => exact .inr rfl
  | true =>
      rw [hcomment, Bool.and_true] at hs
      rcases exists_comment hcomment with ⟨text, span, rfl⟩
      rcases P.kept with hcut | hsource | hnone
      · exact .inl ⟨hs, hcut⟩
      · rw [hsource] at hs
        cases hs
      · exact absurd hmeets hnone

theorem stmt_kept {s : Source.Stmt} (hmeets : Met (s.meets P.condition))
    (hs : (P.source && s.isComment) = false) {y : CheckM Typed.Stmt}
    (h : P.Pairs (P.Alike Typed.Stmt.strip) (Checker.stmt s) y) :
    P.Pairs P.Kept (Checker.stmt s) y := by
  apply h.knowing
  intro st t st' hrun
  have hgives := (Naming.all P.env).stmt s (Condition.Vacuous.empty.ofStmt s) st
    (Session.calls_all _)
  rw [hrun] at hgives
  rw [← (hgives.2 t rfl).isComment_eq]
  exact comment_kept hmeets hs

theorem stmt_dropped {s : Source.Stmt} (hs : (P.source && s.isComment) = true) :
    ∃ t, Checker.stmt s = pure t ∧ P.Dropped t := by
  rcases Bool.and_eq_true_iff.mp hs with ⟨hsource, hcomment⟩
  rcases exists_comment hcomment with ⟨text, span, rfl⟩
  exact ⟨⟨.comment text, span⟩, rfl, hsource, rfl⟩

/-!
# Trees
-/

theorem ofExpr_strip (cut : Bool) (kind : Source.ExprKind) (span : Span) :
    ExprContext.ofExpr ⟨kind.strip cut, span⟩ = ExprContext.ofExpr ⟨kind, span⟩ := by
  cases kind <;> rfl

theorem isLiteral_strip (cut : Bool) (e : Source.Expr) : (e.strip cut).isLiteral = e.isLiteral := by
  rcases e with ⟨kind, span⟩
  cases kind <;> rfl

theorem writtenTy {ret : Option Ty} (h : Met (ret.all P.condition.ty)) :
    ∀ ty, ret = some ty → ty.strip P.cut = ty.strip P.cut' := by
  intro ty hty
  cases hty
  exact P.written h

/-- A default value that both runs give with the same left out as of other expressions, or that is
the same in both even with less left out. -/
def Admitted (P : Pairing) (default : Option Source.Expr) : Prop :=
  (P.cut.defaults = P.cut ∧ P.cut'.defaults = P.cut') ∨ ∀ e, default = some e →
    ∀ t t', P.Alike Ty.strip t t' → P.Pairs P.AlikeDefault (CheckM.confirm e (Checker.expr e) t)
      (CheckM.confirm (e.strip P.source) (Checker.expr (e.strip P.source)) t')

theorem admitted {ps : List Source.Param} (h : Met (P.condition.params ps)) :
    ∀ p ∈ ps, P.Admitted p.default :=
  fun p hp => P.defaults.imp_right fun hdefaults => hdefaults h p hp

theorem alikeDefault (hcut : P.cut.defaults = P.cut) (hcut' : P.cut'.defaults = P.cut')
    {e e' : Typed.Expr} (h : P.Alike Typed.Expr.strip e e') : P.AlikeDefault e e' := by
  unfold Likeness.AlikeDefault
  rw [hcut, hcut']
  exact h

mutual

theorem expr : ∀ e : Source.Expr, Met (e.meets P.condition) →
    P.Pairs (P.Alike Typed.Expr.strip) (Checker.expr e) (Checker.expr (e.strip P.source))
  | ⟨kind, span⟩, h => by
      have hkind := exprKind kind h span
      rw [Expr.strip, Checker.expr, Checker.expr, ofExpr_strip]
      split
      · exact hkind
      · exact hkind.inExpr _
termination_by structural e => e

theorem exprKind : ∀ k : Source.ExprKind, Met (k.meets P.condition) → ∀ span,
    P.Pairs (P.Alike Typed.Expr.strip) (Checker.exprKind k span)
      (Checker.exprKind (k.strip P.source) span)
  | .int _, _, _ | .float _, _, _ | .string _, _, _ | .char _, _, _ | .bool _, _, _
  | .nil, _, _ => .pure rfl
  | .list items, h, span => listLiteral (operands items h.right) span
  | .map es, h, span => mapLiteral (entries es h.right) span
  | .var name, _, span => varExpr name span
  | .this, _, span => thisExpr span
  | .assign name value, h, span => assign name (operand value _ (expr value h.right)) span
  | .increment e, h, span => increment (expr e h.right) span
  | .decrement e, h, span => decrement (expr e h.right) span
  | .binary left op right, h, span =>
      binary (expr left h.left.right) op (operand right _ (expr right h.right)) span
  | .logical left op right, h, span =>
      logical (expr left h.left.right) op (operand right _ (expr right h.right)) span
  | .unary op e, h, span => unary op (expr e h.right) span
  | .group e, h, span => group (expr e h.right) span
  | .is value interface, h, span => isTest (expr value h.right) interface span
  | .call callee args callSpan, h, span =>
      callExpr (call callee _ (expr callee h.left.right) (arguments args h.right) callSpan) span
  | .get object name, h, span => getExpr (member object _ (expr object h.right) name) name span
  | .set object name value, h, span =>
      setExpr (settableMember object _ (expr object h.left.right) name) name
        (operand value _ (expr value h.right)) span
  | .index object index, h, span => indexExpr (expr object h.left.right) (expr index h.right) span
  | .slice object lower upper, h, span =>
      sliceExpr (expr object h.left.left.right) (expr lower h.left.right) (expr upper h.right) span
  | .block b, h, span => blockExpr (blockOf b h.right (P.blocks h.left)) span
  | .cond condition thenBranch otherwise, h, span =>
      condExpr (operand condition _ (expr condition h.left.left.right))
        (blockOf thenBranch h.left.right (P.conds h.left.left.left)) (exprOption otherwise h.right)
        span
  | .lambda ps _ body, h, span =>
      lambda (signature (paramList ps h.left.left.right (admitted h.left.left.left.right))
          (writtenTy h.left.right) span.line)
        (blockOf body h.right (P.lambdas h.left.left.left.left)) span
termination_by structural k => k

theorem operands : ∀ es : List Source.Expr, Met (Expr.allMeet P.condition es) →
    List.Forall₂ P.Operands (Checker.operands es) (Checker.operands (Expr.stripAll P.source es))
  | [], _ => .nil
  | e :: es, h => .cons (operand e _ (expr e h.left)) (operands es h.right)
termination_by structural es => es

theorem entries : ∀ es : List Source.Entry, Met (Entry.allMeet P.condition es) →
    List.Forall₂ P.Entries (Checker.entries es) (Checker.entries (Entry.stripAll P.source es))
  | [], _ => .nil
  | ⟨key, value⟩ :: es, h =>
      .cons ⟨operand key _ (expr key h.left.left), operand value _ (expr value h.left.right)⟩
        (entries es h.right)
termination_by structural es => es

theorem arguments : ∀ args : List Source.Arg, Met (Arg.allMeet P.condition args) →
    List.Forall₂ P.Arguments (Checker.arguments args)
      (Checker.arguments (Arg.stripAll P.source args))
  | [], _ => .nil
  | ⟨_, value⟩ :: args, h =>
      .cons ⟨rfl, operand value _ (expr value h.left)⟩ (arguments args h.right)
termination_by structural args => args

theorem exprOption : ∀ e : Option Source.Expr, Met (Expr.optionMeets P.condition e) →
    Option.Rel (P.Pairs (P.Alike Typed.Expr.strip)) (Checker.exprOption e)
      (Checker.exprOption (Expr.stripOption P.source e))
  | none, _ => .none
  | some e, h => .some (expr e h)
termination_by structural e => e

theorem operandOption : ∀ e : Option Source.Expr, Met (Expr.optionMeets P.condition e) →
    Option.Rel P.Operands (Checker.operandOption e)
      (Checker.operandOption (Expr.stripOption P.source e))
  | none, _ => .none
  | some e, h => .some (operand e _ (expr e h))
termination_by structural e => e

theorem defaultOption : ∀ e : Option Source.Expr, Met (Expr.optionMeets P.condition e) →
    P.Admitted e → Option.Rel P.Defaults (Checker.defaultOption e)
      (Checker.defaultOption (Expr.stripOption P.source e))
  | none, _, _ => .none
  | some e, h, hadmitted => by
      have he := expr e h
      refine .some ⟨(isLiteral_strip _ e).symm, fun ht => ?_⟩
      rcases hadmitted with ⟨hcut, hcut'⟩ | hconfirm
      · exact ((operand e _ he).confirm ht).imp fun _ _ => alikeDefault hcut hcut'
      · exact hconfirm e rfl _ _ ht
termination_by structural e => e

theorem paramList : ∀ ps : List Source.Param, Met (Param.allMeet P.condition ps) →
    (∀ p ∈ ps, P.Admitted p.default) →
    List.Forall₂ (P.Pairs (P.Alike StaticTyping.Param.strip)) (Checker.params ps)
      (Checker.params (Source.Param.stripAll P.source ps))
  | [], _, _ => .nil
  | ⟨name, _, variadic, default⟩ :: ps, h, hps =>
      .cons (param name (P.written h.left.left) variadic
          (defaultOption default h.left.right (hps _ List.mem_cons_self)))
        (paramList ps h.right fun p hp => hps p (List.mem_cons_of_mem _ hp))
termination_by structural ps => ps

theorem head : ∀ d : Source.Head, Met (d.meets P.condition) → ∀ line,
    P.Pairs (P.Alike NamedFunction.strip) (Checker.head d line)
      (Checker.head (d.strip P.source) line)
  | ⟨name, visibility, ps, _⟩, h, line =>
      (signature (paramList ps h.left.right (admitted h.left.left)) (writtenTy h.right) line).bind
        fun _ _ hsig =>
        .pure (congrArg (NamedFunction.mk name.name visibility) hsig)
termination_by structural d => d

theorem blockOf : ∀ b : Source.Block, Met (b.meets P.condition) →
    (P.source = true → b.closes) →
    P.Pairs (P.Alike Typed.Block.strip) (Checker.blockOf b) (Checker.blockOf (b.strip P.source))
  | ⟨ss, span⟩, h, hcloses =>
      block (stmts ss h) (fun hsource _ _ _ hrun => stmts_closes (hcloses hsource) hrun) span
termination_by structural b => b

theorem methodHeads : ∀ ms : List Source.Method, Met (Method.allMeet P.condition ms) →
    List.Forall₂ (P.Pairs (P.Alike NamedFunction.strip)) (Checker.methodHeads ms)
      (Checker.methodHeads (Method.stripAll P.source ms))
  | [], _ => .nil
  | ⟨d, _, span⟩ :: ms, h => .cons (head d h.left.left span.line) (methodHeads ms h.right)
termination_by structural ms => ms

theorem methodBodies : ∀ ms : List Source.Method, Met (Method.allMeet P.condition ms) →
    (P.source = true → ∀ m ∈ ms, m.body.closes) →
    List.Forall₂ P.Methods (Checker.methodBodies ms)
      (Checker.methodBodies (Method.stripAll P.source ms))
  | [], _, _ => .nil
  | ⟨⟨name, _, _, _⟩, body, span⟩ :: ms, h, hcloses =>
      have hbody := blockOf body h.left.right fun hsource =>
        hcloses hsource _ List.mem_cons_self
      .cons (fun _ _ hf => functionOf name hbody span.line hf)
        (methodBodies ms h.right fun hsource m hm =>
          hcloses hsource m (List.mem_cons_of_mem _ hm))
termination_by structural ms => ms

theorem requirements : ∀ rs : List Source.Requirement, Met (Requirement.allMeet P.condition rs) →
    List.Forall₂ (P.Pairs (P.Alike NamedFunction.strip)) (Checker.requirements rs)
      (Checker.requirements (Requirement.stripAll P.source rs))
  | [], _ => .nil
  | ⟨d, span⟩ :: rs, h => .cons (head d h.left span.line) (requirements rs h.right)
termination_by structural rs => rs

theorem classOf : ∀ d : Source.ClassDecl, Met (d.meets P.condition) →
    P.Pairs (P.Alike ClassTy.strip) (Checker.classOf d) (Checker.classOf (d.strip P.source))
  | ⟨name, visibility, ps, ms, implements⟩, h =>
      classHead name visibility (paramList ps h.left.right (admitted h.left.left.right))
        (methodHeads ms h.right) implements
termination_by structural d => d

theorem classWith : ∀ d : Source.ClassDecl, Met (d.meets P.condition) →
    (P.source = true → ∀ m ∈ d.methods, m.body.closes) → ∀ {sig sig' : CheckM ClassTy},
    P.Pairs (P.Alike ClassTy.strip) sig sig' → ∀ span,
    P.Pairs (P.Alike Typed.Stmt.strip) (Checker.classWith d sig span)
      (Checker.classWith (d.strip P.source) sig' span)
  | ⟨name, _, _, ms, _⟩, h, hcloses, _, _, hsig, span =>
      classDecl name hsig (methodBodies ms h.right hcloses) span
termination_by structural d => d

theorem interfaceOf : ∀ d : Source.InterfaceDecl, Met (d.meets P.condition) →
    P.Pairs (P.Alike InterfaceTy.strip) (Checker.interfaceOf d)
      (Checker.interfaceOf (d.strip P.source))
  | ⟨name, visibility, rs⟩, h => interfaceHead name visibility (requirements rs h)
termination_by structural d => d

theorem bindingOf : ∀ d : Source.Binding, Met (d.meets P.condition) → ∀ span,
    P.Pairs (P.Alike Typed.Stmt.strip) (Checker.bindingOf d span)
      (Checker.bindingOf (d.strip P.source) span)
  | ⟨name, isMutable, _, init⟩, h, span =>
      binding name isMutable (writtenTy h.left) (operandOption init h.right) span
termination_by structural d => d

theorem stmt : ∀ s : Source.Stmt, Met (s.meets P.condition) →
    P.Pairs (P.Alike Typed.Stmt.strip) (Checker.stmt s) (Checker.stmt (s.strip P.source))
  | ⟨kind, span⟩, h => stmtKind kind h span
termination_by structural s => s

theorem stmtOption : ∀ s : Option Source.Stmt, Met (Stmt.optionMeets P.condition s) →
    P.Pairs (fun o o' => Typed.Stmt.stripOption P.cut o = Typed.Stmt.stripOption P.cut' o')
      (CheckM.optional (Checker.stmtOption s))
      (CheckM.optional (Checker.stmtOption (Stmt.stripOption P.source s)))
  | none, _ => .pure rfl
  | some s, h => by
      have hstmt := stmt s h
      rw [Stmt.stripOption]
      cases hs : P.source && s.isComment with
      | true =>
          rcases stmt_dropped hs with ⟨t, hrun, hdropped⟩
          have hcut : (P.cut.comments && t.isComment) = true :=
            Bool.and_eq_true_iff.mpr ⟨P.dropped hdropped.1, hdropped.2⟩
          rw [if_pos rfl, Checker.stmtOption, Checker.stmtOption, hrun]
          apply Pairs.pure
          rw [Typed.Stmt.stripOption, Typed.Stmt.stripOption, if_pos hcut]
      | false =>
          rw [if_neg Bool.false_ne_true, Checker.stmtOption, Checker.stmtOption]
          apply (stmt_kept h hs hstmt).bind
          intro t t' ht
          apply Pairs.pure
          rw [Typed.Stmt.stripOption, Typed.Stmt.stripOption, isComment_kept ht, ht.1]
termination_by structural s => s

theorem stmts : ∀ ss : List Source.Stmt, Met (Stmt.allMeet P.condition ss) →
    P.Aligned P.Kept P.Dropped (Checker.stmts ss) (Checker.stmts (Stmt.stripAll P.source ss))
  | [], _ => .nil
  | s :: ss, h => by
      have hstmt := stmt s h.left
      have hstmts := stmts ss h.right
      rw [Stmt.stripAll]
      cases hs : P.source && s.isComment with
      | true =>
          rcases stmt_dropped hs with ⟨t, hrun, hdropped⟩
          rw [if_pos rfl, Checker.stmts, hrun]
          exact .skip hdropped hstmts
      | false =>
          rw [if_neg Bool.false_ne_true, Checker.stmts, Checker.stmts]
          exact .keep (stmt_kept h.left hs hstmt) hstmts
termination_by structural ss => ss

theorem stmtKind : ∀ k : Source.StmtKind, Met (k.meets P.condition) → ∀ span,
    P.Pairs (P.Alike Typed.Stmt.strip) (Checker.stmtKind k span)
      (Checker.stmtKind (k.strip P.source) span)
  | .defer callee args callSpan, h, span =>
      deferStmt (call callee _ (expr callee h.left.right) (arguments args h.right) callSpan) span
  | .expr value, h, span => exprStmt (expr value h.right) span
  | .forLoop init condition increment body, h, span =>
      forLoop (stmtOption init h.left.left.left.right) (operandOption condition h.left.left.right)
        (operandOption increment h.left.right) (stmts body h.right) span
  | .forEach name iterable body, h, span =>
      forEach name (expr iterable h.left.right) (stmts body h.right) span
  | .whileLoop condition body, h, span =>
      whileLoop (operand condition _ (expr condition h.left.right)) (stmts body h.right) span
  | .function d body, h, span => by
      have hhead := head d h.left.right span.line
      have hbody := blockOf body h.right (P.functions h.left.left)
      have hname : (d.strip P.source).name = d.name := by
        rcases d with ⟨_, _, _, _⟩
        rfl
      rw [StmtKind.strip, Checker.stmtKind, Checker.stmtKind, hname]
      exact functionDecl d.name hhead hbody span
  | .binding d, h, span => bindingOf d h.right span
  | .moduleName _, _, _ => .pure rfl
  | .ret value, h, span => returnStmt (operandOption value h.right) span
  | .yield value, h, span => yieldStmt (expr value h.right) span
  | .classDecl d, h, span =>
      classWith d h.right (P.methods h.left) (classOf d h.right) span
  | .interfaceDecl d, h, span => interfaceDecl (interfaceOf d h.right) span
  | .importOne package alias?, h, span => importStmt (P.one h) alias? span
  | .importMany imports, h, span => importsStmt (P.many h) span
  | .comment _, _, _ => .pure rfl
  | .continueLoop, _, span => continueStmt span
  | .breakLoop, _, span => breakStmt span
termination_by structural k => k

end

end Pairing
end StaticTyping
