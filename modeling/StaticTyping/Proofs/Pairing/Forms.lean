import StaticTyping.Proofs.Pairing.Rules

/-!
# Forms of expressions and statements in two runs

A block gives the same value without its comments, unless one of them follows the statement that
gives the value.
-/

namespace StaticTyping

open CheckM Source

namespace Pairing

variable {P : Pairing}

/-!
# Expressions
-/

theorem listLiteral {items items' : List Operand} (h : List.Forall₂ P.Operands items items')
    (span : Span) :
    P.Pairs (P.Alike Typed.Expr.strip) (CheckM.listLiteral items span)
      (CheckM.listLiteral items' span) := by
  cases h with
  | nil => exact .pure rfl
  | @cons first first' rest rest' hfirst hrest =>
      apply hfirst.check.bind
      intro e e' he
      have hty := Likeness.alike_ty he
      have hconfirm : List.Forall₂ (P.Pairs (P.Alike Typed.Expr.strip))
          (rest.map (·.confirm e.ty)) (rest'.map (·.confirm e'.ty)) := by
        rw [List.forall₂_map_left_iff, List.forall₂_map_right_iff]
        exact hrest.imp fun _ _ ho => ho.confirm hty
      apply (Pairs.collect hconfirm).bind
      intro es es' hes
      exact .pure (Likeness.alike_expr span
        (congrArg Typed.ExprKind.list (Likeness.alike_exprs (.cons he hes))) (congrArg Ty.list hty))

def Entries (P : Pairing) (e e' : Operand × Operand) : Prop :=
  P.Operands e.1 e'.1 ∧ P.Operands e.2 e'.2

theorem mapEntry {keyTy keyTy' valueTy valueTy' : Ty} (hkey : P.Alike Ty.strip keyTy keyTy')
    (hvalue : P.Alike Ty.strip valueTy valueTy') {e e' : Operand × Operand}
    (he : P.Entries e e') :
    P.Pairs (P.Alike Typed.Entry.strip) (CheckM.mapEntry keyTy valueTy e)
      (CheckM.mapEntry keyTy' valueTy' e') := by
  apply (he.1.confirm hkey).bind
  intro key key' hkey
  apply (he.2.confirm hvalue).bind
  intro value value' hvalue
  exact .pure (congrArg₂ Typed.Entry.mk hkey hvalue)

theorem mapLiteral {es es' : List (Operand × Operand)} (h : List.Forall₂ P.Entries es es')
    (span : Span) :
    P.Pairs (P.Alike Typed.Expr.strip) (CheckM.mapLiteral es span)
      (CheckM.mapLiteral es' span) := by
  cases h with
  | nil => exact .pure rfl
  | @cons first first' rest rest' hfirst hrest =>
      apply hfirst.1.check.bind
      intro key key' hkey
      apply hfirst.2.check.bind
      intro value value' hvalue
      have hkeyTy := Likeness.alike_ty hkey
      have hvalueTy := Likeness.alike_ty hvalue
      have hentries : List.Forall₂ (P.Pairs (P.Alike Typed.Entry.strip))
          (rest.map (CheckM.mapEntry key.ty value.ty))
          (rest'.map (CheckM.mapEntry key'.ty value'.ty)) := by
        rw [List.forall₂_map_left_iff, List.forall₂_map_right_iff]
        exact hrest.imp fun _ _ he => mapEntry hkeyTy hvalueTy he
      apply (Pairs.collect hentries).bind
      intro entries entries' hentries
      have hall : Typed.Entry.stripAll P.cut (⟨key, value⟩ :: entries) =
          Typed.Entry.stripAll P.cut' (⟨key', value'⟩ :: entries') := by
        rw [Typed.Entry.stripAll_eq_map, Typed.Entry.stripAll_eq_map]
        exact Likeness.alike_list (.cons (congrArg₂ Typed.Entry.mk hkey hvalue) hentries)
      exact .pure (Likeness.alike_expr span (congrArg Typed.ExprKind.map hall)
        (congrArg₂ Ty.map hkeyTy hvalueTy))

theorem varExpr (name : Ident) (span : Span) :
    P.Pairs (P.Alike Typed.Expr.strip) (CheckM.varExpr name span) (CheckM.varExpr name span) := by
  apply (variableTy name).bind
  intro ty ty' hty
  exact .pure (Likeness.alike_expr span rfl hty)

theorem thisExpr (span : Span) :
    P.Pairs (P.Alike Typed.Expr.strip) (CheckM.thisExpr span) (CheckM.thisExpr span) := by
  have htop : P.Pairs (P.AlikeOption ClassTy.strip) (view fun _ s => s.classes.top?)
      (view fun _ s => s.classes.top?) := by
    apply Pairs.view
    intro s s' hs
    show s.classes.head?.map _ = s'.classes.head?.map _
    rw [← List.head?_map, ← List.head?_map, hs.classes]
  apply htop.bind
  intro c c' hc
  apply (Pairs.orFail span.line hc fun _ => rfl).bind
  intro c c' hc
  exact .pure (Likeness.alike_expr span rfl (Likeness.alike_classTy hc))

theorem assign (name : Ident) {o o' : Operand} (h : P.Operands o o') (span : Span) :
    P.Pairs (P.Alike Typed.Expr.strip) (CheckM.assign name o span)
      (CheckM.assign name o' span) := by
  apply (valueOf name.name name.line).bind
  intro target target' htarget
  apply (h.confirm htarget).bind
  intro e e' he
  exact .pure (Likeness.alike_expr span (congrArg (Typed.ExprKind.assign name) he)
    (Likeness.alike_ty he))

theorem numericStep {x x' : CheckM Typed.Expr} (h : P.Pairs (P.Alike Typed.Expr.strip) x x')
    (cause : Ty → Cause) (kind : Typed.Expr → Typed.ExprKind)
    (hkind : ∀ {e e'}, P.Alike Typed.Expr.strip e e' →
      P.Alike Typed.ExprKind.strip (kind e) (kind e')) (span : Span) :
    P.Pairs (P.Alike Typed.Expr.strip)
      (do
        let e ← x
        CheckM.require e.ty.isNumeric (cause e.ty) span.line
        pure ⟨kind e, e.ty, span⟩)
      (do
        let e ← x'
        CheckM.require e.ty.isNumeric (cause e.ty) span.line
        pure ⟨kind e, e.ty, span⟩) := by
  apply h.bind
  intro e e' he
  have hty := Likeness.alike_ty he
  have hnumeric : e.ty.isNumeric = e'.ty.isNumeric :=
    Likeness.alike_congr (fun _ t => t.isNumeric_strip) hty
  apply (Pairs.require span.line hnumeric fun hstrict => ?_).bind
  · intro _ _ _
    exact .pure (Likeness.alike_expr span (hkind he) hty)
  · rw [Likeness.eq_of_alike hstrict hty]

theorem increment {x x' : CheckM Typed.Expr} (h : P.Pairs (P.Alike Typed.Expr.strip) x x')
    (span : Span) :
    P.Pairs (P.Alike Typed.Expr.strip) (CheckM.increment x span) (CheckM.increment x' span) :=
  numericStep h .incrementOf .increment (fun he => congrArg Typed.ExprKind.increment he) span

theorem decrement {x x' : CheckM Typed.Expr} (h : P.Pairs (P.Alike Typed.Expr.strip) x x')
    (span : Span) :
    P.Pairs (P.Alike Typed.Expr.strip) (CheckM.decrement x span) (CheckM.decrement x' span) :=
  numericStep h .decrementOf .decrement (fun he => congrArg Typed.ExprKind.decrement he) span

theorem binary {x x' : CheckM Typed.Expr} (h : P.Pairs (P.Alike Typed.Expr.strip) x x')
    (op : BinaryOp) {o o' : Operand} (ho : P.Operands o o') (span : Span) :
    P.Pairs (P.Alike Typed.Expr.strip) (CheckM.binary x op o span)
      (CheckM.binary x' op o' span) := by
  apply h.bind
  intro l l' hl
  apply (ho.confirm (Likeness.alike_ty hl)).bind
  intro r r' hr
  exact .pure (Likeness.alike_expr span (congrArg₂ (Typed.ExprKind.binary · op ·) hl hr)
    (Likeness.alike_ty hl))

theorem logical {x x' : CheckM Typed.Expr} (h : P.Pairs (P.Alike Typed.Expr.strip) x x')
    (op : LogicalOp) {o o' : Operand} (ho : P.Operands o o') (span : Span) :
    P.Pairs (P.Alike Typed.Expr.strip) (CheckM.logical x op o span)
      (CheckM.logical x' op o' span) := by
  apply h.bind
  intro l l' hl
  apply (ho.confirm (Likeness.alike_ty hl)).bind
  intro r r' hr
  exact .pure (Likeness.alike_expr span (congrArg₂ (Typed.ExprKind.logical · op ·) hl hr) rfl)

theorem unary (op : UnaryOp) {x x' : CheckM Typed.Expr}
    (h : P.Pairs (P.Alike Typed.Expr.strip) x x') (span : Span) :
    P.Pairs (P.Alike Typed.Expr.strip) (CheckM.unary op x span) (CheckM.unary op x' span) := by
  apply h.bind
  intro e e' he
  have hty := Likeness.alike_ty he
  have happlies : unaryApplies op e.ty = unaryApplies op e'.ty := by
    cases op with
    | neg => exact Likeness.alike_congr (fun _ t => t.isNumeric_strip) hty
    | not => exact Likeness.alike_congr (fun _ t => t.isBool_strip) hty
  apply (Pairs.require span.line happlies fun hstrict => ?_).bind
  · intro _ _ _
    exact .pure (Likeness.alike_expr span (congrArg (Typed.ExprKind.unary op) he) hty)
  · rw [Likeness.eq_of_alike hstrict hty]

theorem group {x x' : CheckM Typed.Expr} (h : P.Pairs (P.Alike Typed.Expr.strip) x x')
    (span : Span) :
    P.Pairs (P.Alike Typed.Expr.strip) (CheckM.group x span) (CheckM.group x' span) := by
  apply h.bind
  intro e e' he
  exact .pure (Likeness.alike_expr span (congrArg Typed.ExprKind.group he) (Likeness.alike_ty he))

theorem isTest {x x' : CheckM Typed.Expr} (h : P.Pairs (P.Alike Typed.Expr.strip) x x')
    (interface : Ident) (span : Span) :
    P.Pairs (P.Alike Typed.Expr.strip) (CheckM.isTest x interface span)
      (CheckM.isTest x' interface span) := by
  apply h.bind
  intro e e' he
  apply (valueOf interface.name interface.line).bind
  exact byInterface
    (fun _ _ hi => .pure (Likeness.alike_expr span (congrArg₂ Typed.ExprKind.is he hi) rfl))
    (.fail span.line fun _ => rfl)

theorem callExpr {x x' : CheckM Call} (h : P.Pairs P.Calls x x') (span : Span) :
    P.Pairs (P.Alike Typed.Expr.strip) (CheckM.callExpr x span) (CheckM.callExpr x' span) := by
  apply h.bind
  intro c c' hc
  exact .pure (Likeness.alike_expr span
    (congrArg₂ Typed.ExprKind.call hc.callee (Likeness.alike_exprs hc.args)) hc.ty)

theorem getExpr {x x' : CheckM Member} (h : P.Pairs P.Members x x') (name : Ident) (span : Span) :
    P.Pairs (P.Alike Typed.Expr.strip) (CheckM.getExpr x name span)
      (CheckM.getExpr x' name span) := by
  apply h.bind
  intro m m' hm
  exact .pure (Likeness.alike_expr span
    (congrArg₂ (Typed.ExprKind.get · name ·) hm.object hm.access) hm.ty)

theorem setExpr {x x' : CheckM Member} (h : P.Pairs P.Members x x') (name : Ident)
    {o o' : Operand} (ho : P.Operands o o') (span : Span) :
    P.Pairs (P.Alike Typed.Expr.strip) (CheckM.setExpr x name o span)
      (CheckM.setExpr x' name o' span) := by
  apply h.bind
  intro m m' hm
  apply (ho.confirm hm.ty).bind
  intro e e' he
  exact .pure (Likeness.alike_expr span (congrArg₂ (Typed.ExprKind.set · name ·) hm.object he)
    (Likeness.alike_ty he))

def stripTypes (cut : Cut) (types : Ty × Ty) : Ty × Ty :=
  (types.1.strip cut, types.2.strip cut)

theorem indexExpr {x x' y y' : CheckM Typed.Expr} (hx : P.Pairs (P.Alike Typed.Expr.strip) x x')
    (hy : P.Pairs (P.Alike Typed.Expr.strip) y y') (span : Span) :
    P.Pairs (P.Alike Typed.Expr.strip) (CheckM.indexExpr x y span)
      (CheckM.indexExpr x' y' span) := by
  apply hx.bind
  intro object object' hobject
  have hty := Likeness.alike_ty hobject
  have htypes : P.AlikeOption stripTypes object.ty.indexTypes? object'.ty.indexTypes? :=
    Likeness.alike_option (fun cut t => @Ty.indexTypes?_strip cut t) hty
  apply (Pairs.orFail span.line htypes fun hstrict => ?_).bind
  · intro types types' htypes
    have hkey : P.Alike Ty.strip types.1 types'.1 := congrArg Prod.fst htypes
    have helem : P.Alike Ty.strip types.2 types'.2 := congrArg Prod.snd htypes
    apply hy.bind
    intro index index' hindex
    have hindexTy := Likeness.alike_ty hindex
    apply (Pairs.require span.line (Likeness.alike_same hkey hindexTy) fun hstrict => ?_).bind
    · intro _ _ _
      exact .pure (Likeness.alike_expr span (congrArg₂ Typed.ExprKind.index hobject hindex) helem)
    · rw [Likeness.eq_of_alike hstrict hkey, Likeness.eq_of_alike hstrict hindexTy]
  · rw [Likeness.eq_of_alike hstrict hty]

theorem sliceExpr {x x' y y' z z' : CheckM Typed.Expr}
    (hx : P.Pairs (P.Alike Typed.Expr.strip) x x') (hy : P.Pairs (P.Alike Typed.Expr.strip) y y')
    (hz : P.Pairs (P.Alike Typed.Expr.strip) z z') (span : Span) :
    P.Pairs (P.Alike Typed.Expr.strip) (CheckM.sliceExpr x y z span)
      (CheckM.sliceExpr x' y' z' span) := by
  apply hx.bind
  intro object object' hobject
  have hty := Likeness.alike_ty hobject
  have hbound : P.AlikeOption Ty.strip object.ty.sliceBound? object'.ty.sliceBound? :=
    Likeness.alike_option (fun _ t => t.sliceBound?_strip) hty
  apply (Pairs.orFail span.line hbound fun hstrict => ?_).bind
  · intro bound bound' hbound
    apply hy.bind
    intro lower lower' hlower
    apply hz.bind
    intro upper upper' hupper
    have hlowerTy := Likeness.alike_ty hlower
    have hupperTy := Likeness.alike_ty hupper
    apply (Pairs.require span.line (Likeness.alike_same hbound hlowerTy) fun hstrict => ?_).bind
    · intro _ _ _
      apply (Pairs.require span.line (Likeness.alike_same hbound hupperTy) fun hstrict => ?_).bind
      · intro _ _ _
        apply Pairs.pure
        apply Likeness.alike_expr span _ hty
        show Typed.ExprKind.slice _ _ _ = Typed.ExprKind.slice _ _ _
        rw [hobject, hlower, hupper]
      · rw [Likeness.eq_of_alike hstrict hbound, Likeness.eq_of_alike hstrict hupperTy]
    · rw [Likeness.eq_of_alike hstrict hbound, Likeness.eq_of_alike hstrict hlowerTy]
  · rw [Likeness.eq_of_alike hstrict hty]

theorem blockExpr {x x' : CheckM Typed.Block} (h : P.Pairs (P.Alike Typed.Block.strip) x x')
    (span : Span) :
    P.Pairs (P.Alike Typed.Expr.strip) (CheckM.blockExpr x span) (CheckM.blockExpr x' span) := by
  apply h.bind
  intro b b' hb
  have hty : P.Alike Ty.strip b.ty b'.ty := Likeness.alike_map (fun _ b => b.strip_ty) hb
  exact .pure (Likeness.alike_expr span (congrArg Typed.ExprKind.block hb) hty)

theorem elseBranch {t t' : Ty} (ht : P.Alike Ty.strip t t') {x x' : Option (CheckM Typed.Expr)}
    (hx : Option.Rel (P.Pairs (P.Alike Typed.Expr.strip)) x x') :
    P.Pairs (Option.Rel (P.Alike Typed.Expr.strip)) (CheckM.elseBranch t x)
      (CheckM.elseBranch t' x') := by
  cases hx with
  | none => exact .pure .none
  | some hx =>
      apply hx.bind
      intro e e' he
      have hty := Likeness.alike_ty he
      have hspan : e.span = e'.span := Likeness.alike_congr (fun _ e => e.strip_span) he
      rw [← hspan]
      apply (Pairs.require e.span.line (Likeness.alike_same ht hty) fun hstrict => ?_).bind
      · intro _ _ _
        exact .pure (.some he)
      · rw [Likeness.eq_of_alike hstrict ht, Likeness.eq_of_alike hstrict hty]

theorem condExpr {o o' : Operand} (ho : P.Operands o o') {b b' : CheckM Typed.Block}
    (hb : P.Pairs (P.Alike Typed.Block.strip) b b') {x x' : Option (CheckM Typed.Expr)}
    (hx : Option.Rel (P.Pairs (P.Alike Typed.Expr.strip)) x x') (span : Span) :
    P.Pairs (P.Alike Typed.Expr.strip) (CheckM.condExpr o b x span)
      (CheckM.condExpr o' b' x' span) := by
  apply (ho.confirm rfl).bind
  intro c c' hc
  apply hb.bind
  intro b b' hb
  have hty : P.Alike Ty.strip b.ty b'.ty := Likeness.alike_map (fun _ b => b.strip_ty) hb
  apply (elseBranch hty hx).bind
  intro e e' he
  apply Pairs.pure
  apply Likeness.alike_expr span _ hty
  show Typed.ExprKind.cond _ _ _ = Typed.ExprKind.cond _ _ _
  rw [hc, hb, Likeness.alike_exprOption he]

theorem lambda {sig sig' : CheckM Signature} (hsig : P.Pairs (P.Alike Signature.strip) sig sig')
    {body body' : CheckM Typed.Block} (hbody : P.Pairs (P.Alike Typed.Block.strip) body body')
    (span : Span) :
    P.Pairs (P.Alike Typed.Expr.strip) (CheckM.lambda sig body span)
      (CheckM.lambda sig' body' span) := by
  apply hsig.bind
  intro sig sig' hsig
  apply (functionBody hsig hbody span.line).bind
  intro b b' hb
  rcases sig with ⟨ps, ret⟩
  rcases sig' with ⟨ps', ret'⟩
  have hps : Param.stripAll P.cut ps = Param.stripAll P.cut' ps' := congrArg Signature.params hsig
  have hret : ret.strip P.cut = ret'.strip P.cut' := congrArg Signature.ret hsig
  have hty : P.Alike Ty.strip (.function ⟨ps, ret⟩) (.function ⟨ps', ret'⟩) :=
    congrArg Ty.function hsig
  apply Pairs.pure
  apply Likeness.alike_expr span _ hty
  show Typed.ExprKind.lambda _ _ _ = Typed.ExprKind.lambda _ _ _
  rw [hps, hret, hb]

/-!
# Blocks
-/

def Kept (P : Pairing) (s s' : Typed.Stmt) : Prop :=
  P.Alike Typed.Stmt.strip s s' ∧
    ((P.source = false ∧ P.cut.comments = P.cut'.comments) ∨ s.isComment = false)

def Dropped (P : Pairing) (s : Typed.Stmt) : Prop :=
  P.source = true ∧ s.isComment = true

theorem isComment_kept {s s' : Typed.Stmt} (h : P.Kept s s') :
    (P.cut.comments && s.isComment) = (P.cut'.comments && s'.isComment) := by
  have hcomment : s.isComment = s'.isComment := Likeness.alike_congr Typed.Stmt.isComment_strip h.1
  rw [← hcomment]
  rcases h.2 with ⟨_, hcut⟩ | hnone
  · rw [hcut]
  · rw [hnone, Bool.and_false, Bool.and_false]

theorem stripAll_of_thinned {ss ss' : List Typed.Stmt} (h : Thinned P.Kept P.Dropped ss ss') :
    Typed.Stmt.stripAll P.cut ss = Typed.Stmt.stripAll P.cut' ss' := by
  induction h with
  | nil => rfl
  | keep hs _ ih => rw [Typed.Stmt.stripAll, Typed.Stmt.stripAll, isComment_kept hs, hs.1, ih]
  | skip hs _ ih =>
      have hdropped : (P.cut.comments && _) = true :=
        Bool.and_eq_true_iff.mpr ⟨P.dropped hs.1, hs.2⟩
      rw [Typed.Stmt.stripAll, if_pos hdropped]
      exact ih

theorem filter_of_thinned (hsource : P.source = true) {ss ss' : List Typed.Stmt}
    (h : Thinned P.Kept P.Dropped ss ss') :
    List.Forall₂ (P.Alike Typed.Stmt.strip) (ss.filter (!·.isComment)) ss' := by
  induction h with
  | nil => exact .nil
  | @keep s _ _ _ hs _ ih =>
      have hnone : s.isComment = false := hs.2.resolve_left fun hkept => by
        rw [hkept.1] at hsource
        cases hsource
      rw [List.filter_cons_of_pos (by rw [hnone]; rfl)]
      exact .cons hs.1 ih
  | skip hs _ ih =>
      rw [List.filter_cons_of_neg (by rw [hs.2]; exact Bool.false_ne_true)]
      exact ih

theorem forall₂_of_thinned (hsource : P.source = false) {ss ss' : List Typed.Stmt}
    (h : Thinned P.Kept P.Dropped ss ss') : List.Forall₂ (P.Alike Typed.Stmt.strip) ss ss' := by
  induction h with
  | nil => exact .nil
  | keep hs _ ih => exact .cons hs.1 ih
  | skip hs _ _ =>
      rw [hs.1] at hsource
      cases hsource

theorem valueTyOf_strip (cut : Cut) (ss : List Typed.Stmt) :
    valueTyOf (ss.map (Typed.Stmt.strip cut)) = (valueTyOf ss).strip cut := by
  unfold valueTyOf
  rw [List.getLast?_map]
  cases ss.getLast? with
  | none => rfl
  | some s =>
      rcases s with ⟨kind, span⟩
      cases kind with
      | ret value =>
          cases value with
          | none => rfl
          | some e => exact e.strip_ty
      | yield e => exact e.strip_ty
      | _ => rfl

theorem valueTyOf_of_forall₂ {ss ss' : List Typed.Stmt}
    (h : List.Forall₂ (P.Alike Typed.Stmt.strip) ss ss') :
    P.Alike Ty.strip (valueTyOf ss) (valueTyOf ss') := by
  unfold Likeness.Alike
  rw [← valueTyOf_strip, ← valueTyOf_strip, Likeness.alike_list h]

def Closes (ss : List Typed.Stmt) : Prop :=
  valueTyOf ss = valueTyOf (ss.filter (!·.isComment))

theorem valueTyOf_of_thinned {ss ss' : List Typed.Stmt} (h : Thinned P.Kept P.Dropped ss ss')
    (hcloses : P.source = true → Closes ss) :
    P.Alike Ty.strip (valueTyOf ss) (valueTyOf ss') := by
  cases hsource : P.source with
  | true =>
      rw [hcloses hsource]
      exact valueTyOf_of_forall₂ (filter_of_thinned hsource h)
  | false => exact valueTyOf_of_forall₂ (forall₂_of_thinned hsource h)

theorem scopedBlock {xs ys : List (CheckM Typed.Stmt)} (h : P.Aligned P.Kept P.Dropped xs ys)
    (hcloses : P.source = true →
      ∀ s ss t, CheckM.collect xs P.env s = (.ok ss, t) → Closes ss) (span : Span) :
    P.Pairs (P.Alike Typed.Block.strip)
      (CheckM.inScope do let ss ← CheckM.collect xs; pure ⟨ss, valueTyOf ss, span⟩)
      (CheckM.inScope do let ss ← CheckM.collect ys; pure ⟨ss, valueTyOf ss, span⟩) := by
  apply Pairs.inScope
  apply (h.collect.knowing fun s ss t hrun hsource => hcloses hsource s ss t hrun).bind
  intro ss ss' h
  rcases h with ⟨hss, hclosed⟩
  exact .pure (congrArg₂ (Typed.Block.mk · · span) (stripAll_of_thinned hss)
    (valueTyOf_of_thinned hss hclosed))

theorem block {xs ys : List (CheckM Typed.Stmt)} (h : P.Aligned P.Kept P.Dropped xs ys)
    (hcloses : P.source = true →
      ∀ s ss t, CheckM.collect xs P.env s = (.ok ss, t) → Closes ss) (span : Span) :
    P.Pairs (P.Alike Typed.Block.strip) (CheckM.block xs span) (CheckM.block ys span) :=
  (scopedBlock h hcloses span).inExpr .block

/-!
# Statements
-/

theorem deferStmt {x x' : CheckM Call} (h : P.Pairs P.Calls x x') (span : Span) :
    P.Pairs (P.Alike Typed.Stmt.strip) (CheckM.deferStmt x span) (CheckM.deferStmt x' span) := by
  apply Pairs.inStmt
  apply h.bind
  intro c c' hc
  exact .pure (Likeness.alike_stmt span
    (congrArg₂ Typed.StmtKind.defer hc.callee (Likeness.alike_exprs hc.args)))

theorem exprStmt {x x' : CheckM Typed.Expr} (h : P.Pairs (P.Alike Typed.Expr.strip) x x')
    (span : Span) :
    P.Pairs (P.Alike Typed.Stmt.strip) (CheckM.exprStmt x span) (CheckM.exprStmt x' span) := by
  apply h.bind
  intro e e' he
  exact .pure (Likeness.alike_stmt span (congrArg Typed.StmtKind.expr he))

theorem optionalChecks {o o' : Option Operand} (h : Option.Rel P.Operands o o')
    {f f' : Operand → CheckM Typed.Expr}
    (hf : ∀ o o', P.Operands o o' → P.Pairs (P.Alike Typed.Expr.strip) (f o) (f' o')) :
    P.Pairs (Option.Rel (P.Alike Typed.Expr.strip)) (CheckM.optional (o.map f))
      (CheckM.optional (o'.map f')) := by
  apply Pairs.optional
  cases h with
  | none => exact .none
  | some h => exact .some (hf _ _ h)

theorem forLoop {init init' : Option (CheckM Typed.Stmt)}
    (hinit : P.Pairs
      (fun o o' => Typed.Stmt.stripOption P.cut o = Typed.Stmt.stripOption P.cut' o')
      (CheckM.optional init) (CheckM.optional init'))
    {c c' i i' : Option Operand} (hc : Option.Rel P.Operands c c')
    (hi : Option.Rel P.Operands i i') {xs ys : List (CheckM Typed.Stmt)}
    (hxs : P.Aligned P.Kept P.Dropped xs ys) (span : Span) :
    P.Pairs (P.Alike Typed.Stmt.strip) (CheckM.forLoop init c i xs span)
      (CheckM.forLoop init' c' i' ys span) := by
  apply Pairs.inStmt
  apply Pairs.inScope
  apply hinit.bind
  intro init init' hinit
  apply (optionalChecks hc fun _ _ ho => ho.confirm rfl).bind
  intro c c' hc
  apply (optionalChecks hi fun _ _ ho => ho.check).bind
  intro i i' hi
  apply hxs.collect.bind
  intro ss ss' hss
  apply Pairs.pure
  apply Likeness.alike_stmt
  show Typed.StmtKind.forLoop _ _ _ _ = Typed.StmtKind.forLoop _ _ _ _
  rw [hinit, Likeness.alike_exprOption hc, Likeness.alike_exprOption hi, stripAll_of_thinned hss]

theorem forEach (name : Ident) {x x' : CheckM Typed.Expr}
    (h : P.Pairs (P.Alike Typed.Expr.strip) x x') {xs ys : List (CheckM Typed.Stmt)}
    (hxs : P.Aligned P.Kept P.Dropped xs ys) (span : Span) :
    P.Pairs (P.Alike Typed.Stmt.strip) (CheckM.forEach name x xs span)
      (CheckM.forEach name x' ys span) := by
  apply Pairs.inStmt
  apply Pairs.inScope
  apply h.bind
  intro e e' he
  have hty := Likeness.alike_ty he
  have helement : P.AlikeOption Ty.strip e.ty.element? e'.ty.element? :=
    Likeness.alike_option (fun _ t => t.element?_strip) hty
  apply (Pairs.orFail span.line helement fun hstrict => ?_).bind
  · intro t t' ht
    apply (Pairs.declare name.name ht).bind
    intro _ _ _
    apply hxs.collect.bind
    intro ss ss' hss
    exact .pure (Likeness.alike_stmt span
      (congrArg₂ (Typed.StmtKind.forEach name) he (stripAll_of_thinned hss)))
  · rw [Likeness.eq_of_alike hstrict hty]

theorem whileLoop {o o' : Operand} (ho : P.Operands o o') {xs ys : List (CheckM Typed.Stmt)}
    (hxs : P.Aligned P.Kept P.Dropped xs ys) (span : Span) :
    P.Pairs (P.Alike Typed.Stmt.strip) (CheckM.whileLoop o xs span)
      (CheckM.whileLoop o' ys span) := by
  apply Pairs.inStmt
  apply Pairs.inScope
  apply (ho.confirm rfl).bind
  intro e e' he
  apply hxs.collect.bind
  intro ss ss' hss
  exact .pure (Likeness.alike_stmt span
    (congrArg₂ Typed.StmtKind.whileLoop he (stripAll_of_thinned hss)))

theorem returnStmt {o o' : Option Operand} (ho : Option.Rel P.Operands o o') (span : Span) :
    P.Pairs (P.Alike Typed.Stmt.strip) (CheckM.returnStmt o span) (CheckM.returnStmt o' span) := by
  apply Pairs.inStmt
  apply (optionalChecks ho fun _ _ ho => ho.check).bind
  intro e e' he
  exact .pure (Likeness.alike_stmt span
    (congrArg Typed.StmtKind.ret (Likeness.alike_exprOption he)))

theorem insideLoop : P.Pairs Eq CheckM.insideLoop CheckM.insideLoop := by
  apply Pairs.view
  intro s s' hs
  rw [hs.stmts]

theorem insideYielding : P.Pairs Eq CheckM.insideYielding CheckM.insideYielding := by
  apply Pairs.view
  intro s s' hs
  rw [hs.exprs]

theorem continueStmt (span : Span) :
    P.Pairs (P.Alike Typed.Stmt.strip) (CheckM.continueStmt span) (CheckM.continueStmt span) := by
  apply insideLoop.bind
  intro ok ok' hok
  exact (Pairs.require span.line hok fun _ => rfl).bind fun _ _ _ => .pure rfl

theorem breakStmt (span : Span) :
    P.Pairs (P.Alike Typed.Stmt.strip) (CheckM.breakStmt span) (CheckM.breakStmt span) := by
  apply insideLoop.bind
  intro ok ok' hok
  exact (Pairs.require span.line hok fun _ => rfl).bind fun _ _ _ => .pure rfl

theorem yieldStmt {x x' : CheckM Typed.Expr} (h : P.Pairs (P.Alike Typed.Expr.strip) x x')
    (span : Span) :
    P.Pairs (P.Alike Typed.Stmt.strip) (CheckM.yieldStmt x span) (CheckM.yieldStmt x' span) := by
  apply insideYielding.bind
  intro ok ok' hok
  apply (Pairs.require span.line hok fun _ => rfl).bind
  intro _ _ _
  apply h.bind
  intro e e' he
  exact .pure (Likeness.alike_stmt span (congrArg Typed.StmtKind.yield he))

/-!
# Imports
-/

theorem loadPackage {package : String} (h : P.imports package) (line : UInt32) :
    P.Pairs (P.Alike ModuleTy.strip) (CheckM.loadPackage package line)
      (CheckM.loadPackage package line) := by
  intro s s' hs
  have hload := P.load package h hs.session
  have hends : ∀ σ σ', P.rel σ σ' →
      P.Ends s s' { s with session := σ } { s' with session := σ' } :=
    fun σ σ' hσ => ⟨⟨hσ, hs.classes, hs.exprs, hs.stmts, hs.report⟩, rfl, rfl⟩
  unfold CheckM.loadPackage
  revert hload
  generalize P.env.load package s.session = r
  generalize P.env'.load package s'.session = r'
  intro hload
  cases hload with
  | ok hm hσ => exact .ok hm (hends _ _ hσ)
  | cycle hσ => exact .error (fun _ => rfl) (hends _ _ hσ)
  | unavailable hσ => exact .error (fun _ => rfl) (hends _ _ hσ)
  | failed herrors hσ =>
      apply Likeness.Match.error fun _ => rfl
      exact ⟨⟨hσ, hs.classes, hs.exprs, hs.stmts, P.extend hs.report herrors⟩, rfl, rfl⟩
  | @free e σ r' hfree =>
      cases e <;> exact .free hfree

theorem importModule {i : Source.Import} (h : P.imports i.package.name) :
    P.Pairs Eq (CheckM.importModule i) (CheckM.importModule i) := by
  apply (loadPackage h i.span.line).bind
  intro m m' hm
  have hadd : P.Pairs (fun _ _ => True) (CheckM.addModule i.space m)
      (CheckM.addModule i.space m') :=
    fun _ _ hs => .ok trivial
      ⟨⟨P.addModule i.space hs.session hm, hs.classes, hs.exprs, hs.stmts, hs.report⟩, rfl, rfl⟩
  exact hadd.bind fun _ _ _ => .pure rfl

theorem importStmt {package : Ident} (h : P.imports package.name) (alias? : Option Ident)
    (span : Span) :
    P.Pairs (P.Alike Typed.Stmt.strip) (CheckM.importStmt package alias? span)
      (CheckM.importStmt package alias? span) := by
  apply (importModule (i := ⟨package, alias?, span⟩) h).bind
  intro target target' htarget
  cases htarget
  exact .pure rfl

theorem importsStmt {imports : List Source.Import} (h : ∀ i ∈ imports, P.imports i.package.name)
    (span : Span) :
    P.Pairs (P.Alike Typed.Stmt.strip) (CheckM.importsStmt imports span)
      (CheckM.importsStmt imports span) := by
  have hall : List.Forall₂ (P.Pairs Eq) (imports.map CheckM.importModule)
      (imports.map CheckM.importModule) := by
    rw [List.forall₂_map_left_iff, List.forall₂_map_right_iff, List.forall₂_same]
    exact fun i hi => importModule (h i hi)
  apply (Pairs.collect hall).bind
  intro targets targets' htargets
  rw [List.forall₂_eq_eq_eq] at htargets
  cases htargets
  exact .pure rfl

end Pairing
end StaticTyping
