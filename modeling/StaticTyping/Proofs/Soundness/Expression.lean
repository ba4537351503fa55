import StaticTyping.Proofs.Soundness.Declaration

/-!
# Expressions and statements

One lemma for each rule that checks more than one part or asks something of them.
-/

namespace StaticTyping

variable {D : Discipline} {env : Surroundings} {Γ : Context}

theorem Typed.Stmt.AllWellTyped.exists_of_mem {ss : List Typed.Stmt} {Γ Γ' : Context}
    (h : Typed.Stmt.AllWellTyped D Γ ss Γ') {s : Typed.Stmt} (hs : s ∈ ss) :
    ∃ Γ₁ Γ₂, s.kind.WellTyped D Γ₁ Γ₂ := by
  induction ss generalizing Γ with
  | nil => exact absurd hs List.not_mem_nil
  | cons t ss ih =>
      cases h with
      | cons ht hss =>
          rcases List.mem_cons.mp hs with rfl | hs
          · exact ⟨_, _, ht⟩
          · exact ih hss hs

theorem Typed.Stmt.endIn_valueTyOf (ss : List Typed.Stmt) : EndIn ss (CheckM.valueTyOf ss) := by
  unfold CheckM.valueTyOf
  split
  next value span hlast =>
    rcases List.getLast?_eq_some_iff.mp hlast with ⟨init, rfl⟩
    exact .ret
  next value span hlast =>
    rcases List.getLast?_eq_some_iff.mp hlast with ⟨init, rfl⟩
    exact .yield
  next hret hyield => exact .nothing hret hyield

theorem Typed.Stmt.AllWellTyped.endIn {ss : List Typed.Stmt} {Γ Γ' : Context} {ty : Ty}
    (h : Typed.Stmt.AllWellTyped D Γ ss Γ') (hty : EndIn ss ty) : ty.WellFormed D := by
  cases hty with
  | ret =>
      rcases h.exists_of_mem (List.mem_concat_self) with ⟨_, _, hwell⟩
      cases hwell with
      | ret hvalue => exact (hvalue _ rfl).wellFormed
  | yield =>
      rcases h.exists_of_mem (List.mem_concat_self) with ⟨_, _, hwell⟩
      cases hwell with
      | yield hvalue => exact hvalue.wellFormed
  | nothing _ _ => exact .atom rfl

theorem Scopes.eq_bool_of_accepts {s : Scopes} {t : Ty} (h : s.accepts .bool t) : t = .bool := by
  cases t with
  | bool => rfl
  | _ => cases h

theorem Ty.eq_bool_of_isBool {t : Ty} (h : t.isBool) : t = .bool := by
  cases t with
  | bool => rfl
  | _ => cases h

namespace CheckM

abbrev ExprSound (D : Discipline) (env : Surroundings) (Γ : Context) (x : CheckM Typed.Expr) : Prop :=
  x.Yields D env Γ fun e => e.WellTyped D Γ

/-!
# Expressions
-/

namespace ExprSound

theorem listLiteral {items : List Operand} (h : ∀ o ∈ items, Operand.Sound D env Γ o)
    (span : Span) : ExprSound D env Γ (CheckM.listLiteral items span) := by
  cases items with
  | nil => exact Yields.pure (.emptyList (.list (.atom rfl)))
  | cons first rest =>
      rcases List.forall_mem_cons.mp h with ⟨hfirst, hrest⟩
      refine hfirst.check.bind fun e he => ?_
      have hitem : ∀ x ∈ rest.map (·.confirm e.ty), CheckM.Yields D env Γ x fun e' =>
          e'.WellTyped D Γ ∧ Γ.scopes.accepts e.ty e'.ty := by
        intro x hx
        rcases List.mem_map.mp hx with ⟨o, ho, rfl⟩
        exact (hrest o ho).confirm he.wellFormed
      refine (Yields.collect hitem).bind fun es hes => Yields.pure ?_
      refine .intro (.list ?_ ?_) (.list he.wellFormed)
      · exact List.forall_mem_cons.mpr ⟨he, fun e' he' => (hes e' he').1⟩
      · exact List.forall_mem_cons.mpr ⟨Γ.scopes.accepts_refl _, fun e' he' => (hes e' he').2⟩

theorem mapLiteral {entries : List (Operand × Operand)}
    (h : ∀ e ∈ entries, Operand.Sound D env Γ e.1 ∧ Operand.Sound D env Γ e.2) (span : Span) :
    ExprSound D env Γ (CheckM.mapLiteral entries span) := by
  cases entries with
  | nil => exact Yields.pure (.emptyMap (.map (.atom rfl) (.atom rfl)))
  | cons first rest =>
      rcases List.forall_mem_cons.mp h with ⟨hfirst, hrest⟩
      refine hfirst.1.check.bind fun key hkey => hfirst.2.check.bind fun value hvalue => ?_
      have hentry : ∀ x ∈ rest.map (mapEntry key.ty value.ty), CheckM.Yields D env Γ x fun e =>
          (e.key.WellTyped D Γ ∧ Γ.scopes.accepts key.ty e.key.ty) ∧
            e.value.WellTyped D Γ ∧ Γ.scopes.accepts value.ty e.value.ty := by
        intro x hx
        rcases List.mem_map.mp hx with ⟨o, ho, rfl⟩
        exact ((hrest o ho).1.confirm hkey.wellFormed).bind fun k hk =>
          ((hrest o ho).2.confirm hvalue.wellFormed).bind fun v hv => Yields.pure ⟨hk, hv⟩
      refine (Yields.collect hentry).bind fun es hes => Yields.pure ?_
      refine .intro (.map ?_ ?_ ?_ ?_) (.map hkey.wellFormed hvalue.wellFormed)
      · exact List.forall_mem_cons.mpr ⟨hkey, fun e he => (hes e he).1.1⟩
      · exact List.forall_mem_cons.mpr ⟨hvalue, fun e he => (hes e he).2.1⟩
      · exact List.forall_mem_cons.mpr ⟨Γ.scopes.accepts_refl _, fun e he => (hes e he).1.2⟩
      · exact List.forall_mem_cons.mpr ⟨Γ.scopes.accepts_refl _, fun e he => (hes e he).2.2⟩

theorem thisExpr (span : Span) : ExprSound D env Γ (CheckM.thisExpr span) := by
  have hview : (CheckM.view fun _ s => s.classes.top?).Yields D env Γ fun c? =>
      c? = Γ.this? ∧ ∀ c, c? = some c → (Ty.classTy c).WellFormed D := by
    refine Yields.view (fun _ => rfl) fun s hs hΓ => ⟨hΓ ▸ rfl, fun c hc => ?_⟩
    exact hs.classes c (List.mem_of_head? hc)
  refine hview.bind fun c? hc? => Yields.orFail.bind fun c hc => Yields.pure ?_
  exact .intro (.this (hc?.1 ▸ hc)) (hc?.2 c hc)

theorem assign {name : Ident} (hname : env.sees name.name) {value : Operand}
    (h : Operand.Sound D env Γ value) (span : Span) :
    ExprSound D env Γ (CheckM.assign name value span) :=
  (Yields.valueOf hname name.line).bind fun _ htarget => (h.confirm htarget).bind fun _ he =>
    Yields.pure (.intro (.assign he.1) he.1.wellFormed)

theorem increment {operand : CheckM Typed.Expr} (h : ExprSound D env Γ operand) (span : Span) :
    ExprSound D env Γ (CheckM.increment operand span) :=
  h.bind fun _ he => Yields.require.bind fun _ hnumeric =>
    Yields.pure (.intro (.increment he hnumeric) he.wellFormed)

theorem decrement {operand : CheckM Typed.Expr} (h : ExprSound D env Γ operand) (span : Span) :
    ExprSound D env Γ (CheckM.decrement operand span) :=
  h.bind fun _ he => Yields.require.bind fun _ hnumeric =>
    Yields.pure (.intro (.decrement he hnumeric) he.wellFormed)

theorem binary {left : CheckM Typed.Expr} (hleft : ExprSound D env Γ left) (op : BinaryOp)
    {right : Operand} (hright : Operand.Sound D env Γ right) (span : Span) :
    ExprSound D env Γ (CheckM.binary left op right span) :=
  hleft.bind fun _ hl => (hright.confirm hl.wellFormed).bind fun _ hr =>
    Yields.pure (.intro (.binary hl hr.1 hr.2) hl.wellFormed)

theorem logical {left : CheckM Typed.Expr} (hleft : ExprSound D env Γ left) (op : LogicalOp)
    {right : Operand} (hright : Operand.Sound D env Γ right) (span : Span) :
    ExprSound D env Γ (CheckM.logical left op right span) :=
  hleft.bind fun _ hl => (hright.confirm hl.wellFormed).bind fun _ hr =>
    Yields.pure (.intro (.logical hl hr.1 hr.2) (.atom rfl))

theorem unary (op : UnaryOp) {operand : CheckM Typed.Expr} (h : ExprSound D env Γ operand)
    (span : Span) : ExprSound D env Γ (CheckM.unary op operand span) := by
  refine h.bind fun e he => Yields.require.bind fun _ happlies =>
    Yields.pure (.intro ?_ he.wellFormed)
  cases op with
  | neg => exact .neg he happlies
  | not =>
      have hbool := Ty.eq_bool_of_isBool happlies
      rw [hbool]
      exact .not he hbool

theorem isTest {value : CheckM Typed.Expr} (h : ExprSound D env Γ value) {interface : Ident}
    (hname : env.sees interface.name) (span : Span) :
    ExprSound D env Γ (CheckM.isTest value interface span) := by
  refine h.bind fun e he => (Yields.valueOf hname interface.line).bind fun ty hty => ?_
  cases ty with
  | interfaceTy i => exact Yields.pure (.intro (.is he hty) (.atom rfl))
  | _ => exact Yields.fail _ _

theorem getExpr {member : CheckM Member} {name : Ident}
    (h : member.Yields D env Γ (MemberSound D Γ name)) (span : Span) :
    ExprSound D env Γ (CheckM.getExpr member name span) :=
  h.bind fun _ hm => Yields.pure (.intro (.get hm.object hm.member) hm.wellFormed)

theorem setExpr {member : CheckM Member} {name : Ident}
    (h : member.Yields D env Γ (MemberSound D Γ name)) {value : Operand}
    (hvalue : Operand.Sound D env Γ value) (span : Span) :
    ExprSound D env Γ (CheckM.setExpr member name value span) :=
  h.bind fun _ hm => (hvalue.confirm hm.wellFormed).bind fun _ he =>
    Yields.pure (.intro (.set hm.object hm.member he.1 he.2) he.1.wellFormed)

theorem indexExpr {object index : CheckM Typed.Expr} (hobject : ExprSound D env Γ object)
    (hindex : ExprSound D env Γ index) (span : Span) :
    ExprSound D env Γ (CheckM.indexExpr object index span) :=
  hobject.bind fun _ ho => Yields.orFail.bind fun _ htypes => hindex.bind fun _ hi =>
    Yields.require.bind fun _ hsame =>
    Yields.pure (.intro (.index ho htypes hi hsame) (ho.wellFormed.indexTypes? htypes))

theorem sliceExpr {object lower upper : CheckM Typed.Expr} (hobject : ExprSound D env Γ object)
    (hlower : ExprSound D env Γ lower) (hupper : ExprSound D env Γ upper) (span : Span) :
    ExprSound D env Γ (CheckM.sliceExpr object lower upper span) :=
  hobject.bind fun _ ho => Yields.orFail.bind fun _ hbound => hlower.bind fun _ hl =>
    hupper.bind fun _ hu => Yields.require.bind fun _ hsame => Yields.require.bind fun _ hsame' =>
    Yields.pure (.intro (.slice ho hbound hl hu hsame hsame') ho.wellFormed)

theorem condExpr {condition : Operand} (hcondition : Operand.Sound D env Γ condition)
    {thenBranch : CheckM Typed.Block}
    (hthen : thenBranch.Yields D env Γ fun b => b.WellTyped D Γ)
    {otherwise : Option (CheckM Typed.Expr)} (helse : ∀ x ∈ otherwise, ExprSound D env Γ x)
    (span : Span) : ExprSound D env Γ (CheckM.condExpr condition thenBranch otherwise span) := by
  refine (hcondition.confirm (.atom rfl)).bind fun c hc => hthen.bind fun b hb => ?_
  have hbranch : (elseBranch b.ty otherwise).Yields D env Γ fun o =>
      ∀ e, o = some e → e.WellTyped D Γ ∧ b.ty.same e.ty := by
    cases otherwise with
    | none => exact .pure fun e he => by cases he
    | some x =>
        refine (helse x rfl).bind fun e he => Yields.require.bind fun _ hsame =>
          Yields.pure fun e' he' => ?_
        cases he'
        exact ⟨he, hsame⟩
  refine hbranch.bind fun o ho => Yields.pure (.intro (.cond hc.1 ?_ hb ?_ ?_) ?_)
  · exact Scopes.eq_bool_of_accepts hc.2
  · exact fun e he => (ho e he).1
  · exact fun e he => (ho e he).2
  · exact hb.wellFormed

theorem lambda {sig : CheckM Signature} (hsig : sig.Yields D env Γ fun s => s.WellFormed D Γ)
    {body : CheckM Typed.Block} (hbody : BlockSound D env body) (span : Span) :
    ExprSound D env Γ (CheckM.lambda sig body span) := by
  refine hsig.bind fun s hs => (Yields.functionBody hs hbody span.line).bind fun b hb =>
    Yields.pure (.intro ?_ (.function hs))
  rcases s with ⟨params, ret⟩
  exact .lambda hs hb.1 hb.2

end ExprSound

/-!
# Statements
-/

theorem Ensures.collectStmts {xs : List (CheckM Typed.Stmt)}
    (h : ∀ x ∈ xs, ∀ Γ, StmtSound D env Γ x) :
    (CheckM.collect xs).Ensures D env Γ fun ss Γ' => Typed.Stmt.AllWellTyped D Γ ss Γ' := by
  induction xs generalizing Γ with
  | nil => exact .pure .nil
  | cons x xs ih =>
      have hx := h x List.mem_cons_self Γ
      exact hx.bind fun s Γ' hs => Ensures.bind (ih fun y hy => h y (List.mem_cons_of_mem _ hy))
        fun ss Γ'' hss => .pure (.cons hs hss)

theorem Yields.block {stmts : List (CheckM Typed.Stmt)}
    (h : ∀ x ∈ stmts, ∀ Γ, StmtSound D env Γ x) (span : Span) :
    (CheckM.block stmts span).Yields D env Γ fun b => b.WellTyped D Γ :=
  Ensures.inExpr _ (Yields.inScope ((Ensures.collectStmts h).bind fun _ _ hss =>
    .pure (.intro hss (Typed.Stmt.endIn_valueTyOf _) (hss.endIn (Typed.Stmt.endIn_valueTyOf _)))))

namespace StmtSound

theorem deferStmt {call : CheckM Call} (h : call.Yields D env Γ (CallSound D Γ)) (span : Span) :
    StmtSound D env Γ (CheckM.deferStmt call span) :=
  Ensures.inStmt _ (h.bind fun _ hc => .pure (.defer hc.1))

theorem exprStmt {value : CheckM Typed.Expr} (h : ExprSound D env Γ value) (span : Span) :
    StmtSound D env Γ (CheckM.exprStmt value span) :=
  h.bind fun _ he => .pure (.expr he)

theorem forLoop {init : Option (CheckM Typed.Stmt)}
    (hinit : ∀ x ∈ init, ∀ Γ, StmtSound D env Γ x) {condition increment : Option Operand}
    (hcondition : ∀ o ∈ condition, ∀ Γ, Operand.Sound D env Γ o)
    (hincrement : ∀ o ∈ increment, ∀ Γ, Operand.Sound D env Γ o)
    {body : List (CheckM Typed.Stmt)} (hbody : ∀ x ∈ body, ∀ Γ, StmtSound D env Γ x)
    (span : Span) : StmtSound D env Γ (CheckM.forLoop init condition increment body span) := by
  have hhead : (CheckM.optional init).Ensures D env Γ.push fun s Γ' =>
      Typed.Stmt.AllWellTyped D Γ.push s.toList Γ' := by
    cases init with
    | none => exact .pure .nil
    | some x => exact (hinit x rfl Γ.push).bind fun s Γ' hs => .pure (.cons hs .nil)
  have htest (Γ₁ : Context) : (CheckM.optional (condition.map (·.confirm .bool))).Yields D env Γ₁
      fun e => ∀ a, e = some a → a.WellTyped D Γ₁ ∧ a.ty = .bool := by
    refine Yields.optional fun x hx => ?_
    rcases Option.map_eq_some_iff.mp hx with ⟨o, ho, rfl⟩
    exact ((hcondition o ho Γ₁).confirm (.atom rfl)).mono fun e he =>
      ⟨he.1, Scopes.eq_bool_of_accepts he.2⟩
  have hstep (Γ₁ : Context) : (CheckM.optional (increment.map (·.check))).Yields D env Γ₁
      fun e => ∀ a, e = some a → a.WellTyped D Γ₁ := by
    refine Yields.optional fun x hx => ?_
    rcases Option.map_eq_some_iff.mp hx with ⟨o, ho, rfl⟩
    exact (hincrement o ho Γ₁).check
  refine Ensures.mono (Ensures.inStmt _ (Yields.inScope (P := fun s =>
    s.kind.WellTyped D Γ Γ) ?_)) fun s Γ' h => h.1 ▸ h.2
  exact hhead.bind fun s Γ₁ hs => (htest Γ₁).bind fun c hc => (hstep Γ₁).bind fun i hi =>
    (Ensures.collectStmts hbody).bind fun ss Γ₂ hss => .pure
      (.forLoop hs (fun e he => (hc e he).1) (fun e he => (hc e he).2) hi hss)

theorem forEach (name : Ident) {iterable : CheckM Typed.Expr}
    (h : ∀ Γ, ExprSound D env Γ iterable) {body : List (CheckM Typed.Stmt)}
    (hbody : ∀ x ∈ body, ∀ Γ, StmtSound D env Γ x) (span : Span) :
    StmtSound D env Γ (CheckM.forEach name iterable body span) := by
  refine Ensures.mono (Ensures.inStmt _ (Yields.inScope (P := fun s =>
    s.kind.WellTyped D Γ Γ) ?_)) fun s Γ' h => h.1 ▸ h.2
  refine (h Γ.push).bind fun e he => Yields.orFail.bind fun elem helem => ?_
  refine Ensures.bind (Ensures.declare (Q := fun _ Γ' => Γ' = Γ.push.bind name.name elem) name.name
    (he.wellFormed.element? helem) rfl) fun _ Γ₁ hΓ₁ => ?_
  subst hΓ₁
  exact (Ensures.collectStmts hbody).bind fun ss Γ₂ hss => .pure (.forEach he helem hss)

theorem whileLoop {condition : Operand} (h : ∀ Γ, Operand.Sound D env Γ condition)
    {body : List (CheckM Typed.Stmt)} (hbody : ∀ x ∈ body, ∀ Γ, StmtSound D env Γ x)
    (span : Span) : StmtSound D env Γ (CheckM.whileLoop condition body span) := by
  refine Ensures.mono (Ensures.inStmt _ (Yields.inScope (P := fun s =>
    s.kind.WellTyped D Γ Γ) ?_)) fun s Γ' h => h.1 ▸ h.2
  exact ((h Γ.push).confirm (.atom rfl)).bind fun e he => (Ensures.collectStmts hbody).bind
    fun ss Γ₁ hss => .pure (.whileLoop he.1 (Scopes.eq_bool_of_accepts he.2) hss)

theorem returnStmt {value : Option Operand} (h : ∀ o ∈ value, Operand.Sound D env Γ o)
    (span : Span) : StmtSound D env Γ (CheckM.returnStmt value span) := by
  have hvalue : (CheckM.optional (value.map (·.check))).Yields D env Γ fun e =>
      ∀ a, e = some a → a.WellTyped D Γ := by
    refine Yields.optional fun x hx => ?_
    rcases Option.map_eq_some_iff.mp hx with ⟨o, ho, rfl⟩
    exact (h o ho).check
  exact Ensures.inStmt _ (hvalue.bind fun e he => .pure (.ret he))

theorem yieldStmt {value : CheckM Typed.Expr} (h : ExprSound D env Γ value) (span : Span) :
    StmtSound D env Γ (CheckM.yieldStmt value span) :=
  Yields.bind (Yields.view (P := fun _ => True) (fun _ => rfl) fun _ _ _ => trivial) fun _ _ =>
    Yields.require.bind fun _ _ => h.bind fun _ he => .pure (.yield he)

theorem continueStmt (span : Span) : StmtSound D env Γ (CheckM.continueStmt span) :=
  Yields.bind (Yields.view (P := fun _ => True) (fun _ => rfl) fun _ _ _ => trivial) fun _ _ =>
    Yields.require.bind fun _ _ => .pure .continueLoop

theorem breakStmt (span : Span) : StmtSound D env Γ (CheckM.breakStmt span) :=
  Yields.bind (Yields.view (P := fun _ => True) (fun _ => rfl) fun _ _ _ => trivial) fun _ _ =>
    Yields.require.bind fun _ _ => .pure .breakLoop

theorem importStmt (himports : env.imports) (hload : env.load.Sound D) {package : Ident}
    {alias? : Option Ident} (hi : D.condition.stmt (.importOne package alias?)) (span : Span) :
    StmtSound D env Γ (CheckM.importStmt package alias? span) :=
  (Ensures.importModule (i := ⟨package, alias?, span⟩) himports hload hi).bind fun _ _ h =>
    .pure (.importOne h)

theorem importsStmt (himports : env.imports) (hload : env.load.Sound D)
    {imports : List Source.Import} (his : D.condition.stmt (.importMany imports)) (span : Span) :
    StmtSound D env Γ (CheckM.importsStmt imports span) := by
  have hall : (CheckM.collect (imports.map CheckM.importModule)).Ensures D env Γ fun _ Γ' =>
      Γ.Imports Γ' := by
    induction imports generalizing Γ with
    | nil => exact .pure (.refl Γ)
    | cons i is ih =>
        rcases Bool.and_eq_true_iff.mp his with ⟨hi, his⟩
        exact (Ensures.importModule himports hload hi).bind fun _ _ h =>
          Ensures.bind (ih his) fun _ _ h' => .pure (h.trans h')
  exact hall.bind fun _ _ h => .pure (.importMany h)

end StmtSound

end CheckM
end StaticTyping
