import StaticTyping.Checker.File
import StaticTyping.Proofs.Condition

/-!
# Properties of checks in general

Checks are put together from few steps: they look at the state, fail, bind names, make standard
packages visible, import, and go into scopes and constructs and out of them again.  What all of
these steps have, and what is passed on from the parts of a check to the whole, every check of a
tree has.
-/

namespace StaticTyping

open CheckM

/--
A property of checks that is passed on from the parts to the whole.  Imports need not have it, nor
attempts; then trees have it only whose condition excludes imports, or lets none stand but those
that do.
-/
structure Closure (c : Source.Condition) where
  Has : {α : Type} → CheckM α → Prop
  imports : Prop
  one : ∀ {package alias?}, c.stmt (.importOne package alias?) →
    imports ∨ ∀ span, Has (CheckM.importModule ⟨package, alias?, span⟩)
  many : ∀ {packages}, c.stmt (.importMany packages) →
    imports ∨ ∀ i ∈ packages, Has (CheckM.importModule i)
  ofPure : ∀ {α : Type} (a : α), Has (pure a : CheckM α)
  ofFail : ∀ {α : Type} (cause : Cause) (line : UInt32), Has (CheckM.fail cause line : CheckM α)
  /-- Nothing that is looked at is the loader. -/
  ofView : ∀ {α : Type} (f : Env → State → α), (∀ env load s, f { env with load } s = f env s) →
    Has (CheckM.view f)
  ofBind : ∀ {α β : Type} {x : CheckM α} {f : α → CheckM β}, Has x → (∀ a, Has (f a)) →
    Has (x >>= f)
  ofMapCause : ∀ {α : Type} {x : CheckM α} (f : Cause → Cause), Has x → Has (CheckM.mapCause f x)
  declare : ∀ name ty, Has (CheckM.declare name ty)
  standard : ∀ {ty : Ty} {package localName}, ty.builtinPackage? = some (package, localName) →
    Has (importStandard package localName)
  importModule : imports → ∀ i, Has (CheckM.importModule i)
  ofInScope : ∀ {α : Type} {x : CheckM α}, Has x → Has (CheckM.inScope x)
  ofInStmt : ∀ {α : Type} {x : CheckM α} (construct : StmtContext), Has x →
    Has (CheckM.inStmt construct x)
  ofInExpr : ∀ {α : Type} {x : CheckM α} (construct : ExprContext), Has x →
    Has (CheckM.inExpr construct x)
  ofInClass : ∀ {α : Type} {x : CheckM α} (construct : ClassTy), Has x →
    Has (CheckM.inClass construct x)
  attempts : imports → ∀ {α : Type} {x : CheckM α}, Has x → Has (CheckM.attempt x)

namespace Closure

variable {c : Source.Condition} (C : Closure c) {α β : Type}

structure Operand (o : StaticTyping.Operand) : Prop where
  check : C.Has o.check
  confirm : ∀ ty, C.Has (o.confirm ty)

def Attempts : Prop :=
  ∀ {α : Type} {x : CheckM α}, C.Has x → C.Has (CheckM.attempt x)

/-!
# Checks in general
-/

section General

variable {C}

theorem Has.pure (a : α) : C.Has (pure a) :=
  C.ofPure a

theorem Has.fail (cause : Cause) (line : UInt32) : C.Has (CheckM.fail cause line : CheckM α) :=
  C.ofFail cause line

theorem Has.view (f : Env → State → α)
    (h : ∀ env load s, f { env with load } s = f env s := by intro _ _ _; rfl) :
    C.Has (CheckM.view f) :=
  C.ofView f h

theorem Has.bind {x : CheckM α} {f : α → CheckM β} (hx : C.Has x)
    (hf : ∀ a, C.Has (f a)) : C.Has (x >>= f) :=
  C.ofBind hx hf

theorem Has.map {x : CheckM α} (hx : C.Has x) (f : α → β) : C.Has (f <$> x) := by
  rw [← bind_pure_comp]
  exact hx.bind fun a => .pure (f a)

theorem Has.require (ok : Bool) (cause : Cause) (line : UInt32) :
    C.Has (CheckM.require ok cause line) := by
  unfold CheckM.require
  cases ok with
  | true => exact .pure ()
  | false => exact .fail cause line

theorem Has.orFail (a : Option α) (cause : Cause) (line : UInt32) :
    C.Has (CheckM.orFail a cause line) := by
  cases a with
  | none => exact .fail cause line
  | some a => exact .pure a

theorem Has.mapCause {x : CheckM α} (hx : C.Has x) (f : Cause → Cause) :
    C.Has (CheckM.mapCause f x) :=
  C.ofMapCause f hx

theorem Has.collect {xs : List (CheckM α)} (h : ∀ x ∈ xs, C.Has x) :
    C.Has (CheckM.collect xs) := by
  induction xs with
  | nil => exact .pure []
  | cons x xs ih =>
      have hx := h x List.mem_cons_self
      have hxs := ih fun y hy => h y (List.mem_cons_of_mem _ hy)
      exact hx.bind fun a => hxs.bind fun as => .pure (a :: as)

theorem Has.optional {x : Option (CheckM α)} (h : ∀ y ∈ x, C.Has y) :
    C.Has (CheckM.optional x) := by
  cases x with
  | none => exact .pure none
  | some y => exact (h y rfl).bind fun a => .pure (some a)

theorem Has.inScope {x : CheckM α} (hx : C.Has x) : C.Has (CheckM.inScope x) :=
  C.ofInScope hx

theorem Has.inStmt (construct : StmtContext) {x : CheckM α} (hx : C.Has x) :
    C.Has (CheckM.inStmt construct x) :=
  C.ofInStmt construct hx

theorem Has.inExpr (construct : ExprContext) {x : CheckM α} (hx : C.Has x) :
    C.Has (CheckM.inExpr construct x) :=
  C.ofInExpr construct hx

theorem Has.inClass (construct : ClassTy) {x : CheckM α} (hx : C.Has x) :
    C.Has (CheckM.inClass construct x) :=
  C.ofInClass construct hx

theorem Has.attempt (hattempts : C.Attempts) {x : CheckM α} (hx : C.Has x) :
    C.Has (CheckM.attempt x) :=
  hattempts hx

end General

theorem declareAll (bindings : List (String × Ty)) : C.Has (CheckM.declareAll bindings) := by
  induction bindings with
  | nil => exact .pure ()
  | cons b rest ih => exact Has.bind (C.declare b.1 b.2) fun _ => ih

/-!
# Names, operands and arguments
-/

theorem valueOf (name : String) (line : UInt32) : C.Has (CheckM.valueOf name line) :=
  (Has.view _).bind fun _ => .orFail _ _ _

theorem resolveTy (ty : Ty) (line : UInt32) : C.Has (CheckM.resolveTy ty line) := by
  refine (Has.view _).bind fun r => ?_
  cases r with
  | ok ty => exact .pure ty
  | error name => exact .fail _ _

theorem variableTy (name : Ident) : C.Has (CheckM.variableTy name) := by
  refine (C.valueOf _ _).bind fun found => Has.bind ?_ fun ty => (Has.require _ _ _).bind
    fun _ => .pure ty
  cases found with
  | unknown deferred => exact C.valueOf deferred _
  | _ => exact .pure _

theorem confirm (e : Source.Expr) {check : CheckM Typed.Expr} (h : C.Has check) (ty : Ty) :
    C.Has (CheckM.confirm e check ty) := by
  have hadopt : C.Has (adoptOr e check ty) := by
    unfold adoptOr
    cases adopted? e ty with
    | some literal => exact .pure literal
    | none => exact h
  exact hadopt.bind fun typed => (Has.view _).bind fun ok => (Has.require ok _ _).bind
    fun _ => .pure typed

theorem operand (e : Source.Expr) {check : CheckM Typed.Expr} (h : C.Has check) :
    C.Operand (.ofExpr e check) :=
  ⟨h, C.confirm e h⟩

theorem byPosition (callee : String) (sig : Signature) {args : List StaticTyping.Operand}
    (h : ∀ o ∈ args, C.Operand o) (span : Span) :
    C.Has (CheckM.byPosition callee sig args span) := by
  have hfixed : ∀ x ∈ List.zipWith (fun p arg => arg.confirm p.ty) sig.fixedParams args,
      C.Has x := by
    intro x hx
    rcases List.mem_iff_getElem.mp hx with ⟨i, hi, rfl⟩
    rw [List.getElem_zipWith]
    exact (h _ (List.getElem_mem _)).confirm _
  refine (Has.require _ _ _).bind fun _ => (Has.collect hfixed).bind fun values => ?_
  cases sig.restParam? with
  | none => exact .pure values
  | some p =>
      have habsorbed : ∀ x ∈ (args.drop sig.fixedParams.length).map (·.confirm p.ty),
          C.Has x := by
        intro x hx
        rcases List.mem_map.mp hx with ⟨o, ho, rfl⟩
        exact (h o (List.mem_of_mem_drop ho)).confirm _
      exact (Has.collect habsorbed).bind fun absorbed => .pure _

theorem giveNamed (callee : String) {args : List (Ident × StaticTyping.Operand)}
    (h : ∀ a ∈ args, C.Operand a.2) (seats : List Seat) :
    C.Has (CheckM.giveNamed callee args seats) := by
  induction args generalizing seats with
  | nil => exact .pure seats
  | cons a rest ih =>
      have ha := h a List.mem_cons_self
      have hrest := ih fun b hb => h b (List.mem_cons_of_mem _ hb)
      exact (Has.orFail _ _ _).bind fun seat => (Has.require _ _ _).bind fun _ =>
        (ha.confirm _).bind fun value => hrest _

theorem omitted (callee : String) (span : Span) (p : Param) :
    C.Has (CheckM.omitted callee span p) := by
  unfold CheckM.omitted
  cases p.default with
  | some value => exact .pure value
  | none =>
      cases p.variadic with
      | true => exact .pure _
      | false => exact .fail _ _

theorem seated (callee : String) (span : Span) (seat : Seat) :
    C.Has (CheckM.seated callee span seat) := by
  unfold CheckM.seated
  cases seat.value with
  | some value => exact .pure value
  | none => exact C.omitted callee span seat.param

theorem byName (callee : String) (sig : Signature) {args : List (Ident × StaticTyping.Operand)}
    (h : ∀ a ∈ args, C.Operand a.2) (span : Span) :
    C.Has (CheckM.byName callee sig args span) := by
  refine (C.giveNamed callee h _).bind fun seats => Has.collect fun x hx => ?_
  rcases List.mem_map.mp hx with ⟨seat, _, rfl⟩
  exact C.seated callee span seat

theorem arrange (callee : String) (sig : Signature) {args : List Argument}
    (h : ∀ a ∈ args, C.Operand a.value) (span : Span) :
    C.Has (CheckM.arrange callee sig args span) := by
  have hnamed : ∀ a ∈ namedOnly args, C.Operand a.2 := fun a ha => h _ (mem_namedOnly.mp ha)
  have hvalues : ∀ o ∈ args.map (·.value), C.Operand o := by
    intro o ho
    rcases List.mem_map.mp ho with ⟨arg, harg, rfl⟩
    exact h arg harg
  unfold CheckM.arrange
  split
  · exact C.byName callee sig (fun a ha => absurd ha List.not_mem_nil) span
  · split
    · exact C.byPosition callee sig hvalues span
    · split
      · exact C.byName callee sig hnamed span
      · exact .fail _ _

/-!
# Members and calls
-/

theorem valueMember (object : Typed.Expr) (name : Ident) :
    C.Has (CheckM.valueMember object name) := by
  unfold CheckM.valueMember
  split
  · exact (Has.view _).bind fun c => (Has.orFail _ _ _).bind fun ty => .pure _
  · exact (Has.view _).bind fun i => (Has.orFail _ _ _).bind fun f => .pure _
  · exact (Has.orFail _ _ _).bind fun ty => .pure _
  · split
    next h =>
      exact Has.bind (C.standard h) fun _ => (Has.view _).bind fun scope =>
        (Has.orFail _ _ _).bind fun ty => .pure _
    next => exact .fail _ _

theorem member (e : Source.Expr) {check : CheckM Typed.Expr} (h : C.Has check) (name : Ident) :
    C.Has (CheckM.member e check name) := by
  have hnamed : C.Has (importNamed? e) := by
    unfold importNamed?
    split
    · exact (Has.view _).bind fun scope => .pure _
    · exact .pure none
  refine hnamed.bind fun found => ?_
  cases found with
  | some found => exact (Has.orFail _ _ _).bind fun ty => .pure _
  | none => exact h.bind fun object => C.valueMember object name

theorem argumentSignature (callee : String) (sig : Signature) (f : Typed.Expr) (argCount : Nat)
    (line : UInt32) : C.Has (CheckM.argumentSignature callee sig f argCount line) := by
  unfold CheckM.argumentSignature
  split
  · unfold dropReceiver
    split
    · exact .fail _ _
    · exact (Has.require _ _ _).bind fun _ => .pure _
  · exact .pure sig

theorem call (e : Source.Expr) {check : CheckM Typed.Expr} (h : C.Has check)
    {args : List Argument} (hargs : ∀ a ∈ args, C.Operand a.value) (span : Span) :
    C.Has (CheckM.call e check args span) :=
  h.bind fun callee => (Has.orFail _ _ _).bind fun sig =>
    (C.argumentSignature _ sig callee _ _).bind fun sig =>
      (C.arrange _ sig hargs span).bind fun _ => .pure _

/-!
# Declarations
-/

theorem param (name : Ident) (ty : Ty) (variadic : Bool)
    {default? : Option (Source.Expr × StaticTyping.Operand)}
    (h : ∀ d ∈ default?, C.Operand d.2) : C.Has (CheckM.param name ty variadic default?) := by
  refine (C.resolveTy _ _).bind fun ty => ?_
  cases default? with
  | none => exact .pure _
  | some d =>
      exact Has.bind ((Has.require _ _ _).bind fun _ => (h d rfl).confirm _) fun value =>
        .pure _

theorem resultTy (ret : Option Ty) (line : UInt32) : C.Has (CheckM.resultTy ret line) := by
  cases ret with
  | none => exact .pure _
  | some ty => exact C.resolveTy ty line

theorem signature {params : List (CheckM Param)} (h : ∀ x ∈ params, C.Has x) (ret : Option Ty)
    (line : UInt32) : C.Has (CheckM.signature params ret line) :=
  (Has.collect h).bind fun _ => (C.resultTy ret line).bind fun _ => .pure _

theorem implemented (names : List Ident) :
    C.Has (CheckM.collect (names.map CheckM.implemented)) := by
  refine Has.collect fun x hx => ?_
  rcases List.mem_map.mp hx with ⟨name, _, rfl⟩
  refine (C.valueOf _ _).bind fun ty => ?_
  cases ty with
  | interfaceTy i => exact .pure i
  | _ => exact .fail _ _

theorem classHead (name : Ident) (visibility : Visibility) {params : List (CheckM Param)}
    (hparams : ∀ x ∈ params, C.Has x) {methods : List (CheckM NamedFunction)}
    (hmethods : ∀ x ∈ methods, C.Has x) (implements : List Ident) :
    C.Has (CheckM.classHead name visibility params methods implements) :=
  (Has.collect hparams).bind fun _ => (Has.collect hmethods).bind fun _ =>
    (C.implemented implements).bind fun _ => .pure _

theorem interfaceHead (name : Ident) (visibility : Visibility)
    {methods : List (CheckM NamedFunction)} (h : ∀ x ∈ methods, C.Has x) :
    C.Has (CheckM.interfaceHead name visibility methods) :=
  (Has.collect h).bind fun _ => .pure _

theorem interfaceDecl {sig : CheckM InterfaceTy} (h : C.Has sig) (span : Span) :
    C.Has (CheckM.interfaceDecl sig span) :=
  h.bind fun _ => (C.declareAll _).bind fun _ => .pure _

theorem bindingValue (name : Ident) (written : Option Ty) {init : Option StaticTyping.Operand}
    (h : ∀ o ∈ init, C.Operand o) (span : Span) :
    C.Has (CheckM.bindingValue name written init span) := by
  cases written with
  | some ty =>
      refine (C.resolveTy _ _).bind fun ty => Has.bind ?_ fun value => .pure _
      cases init with
      | none => exact .orFail _ _ _
      | some o => exact (h o rfl).confirm ty
  | none =>
      cases init with
      | none => exact .fail _ _
      | some o => exact (h o rfl).check.bind fun value => .pure _

theorem binding (name : Ident) (isMutable : Bool) (written : Option Ty)
    {init : Option StaticTyping.Operand} (h : ∀ o ∈ init, C.Operand o) (span : Span) :
    C.Has (CheckM.binding name isMutable written init span) :=
  Has.inStmt _ ((C.bindingValue name written h span).bind fun _ =>
    Has.bind (C.declare _ _) fun _ => .pure _)

theorem functionBody (sig : Signature) {body : CheckM Typed.Block} (h : C.Has body)
    (line : UInt32) : C.Has (CheckM.functionBody sig body line) :=
  Has.inStmt _ (Has.inScope ((C.declareAll _).bind fun _ => h.bind fun body =>
    (Has.require _ _ _).bind fun _ => .pure body))

theorem functionOf (name : Ident) {body : CheckM Typed.Block} (h : C.Has body) (line : UInt32)
    (sig : NamedFunction) : C.Has (CheckM.functionOf name body line sig) :=
  (C.functionBody sig.sig h line).bind fun _ => .pure _

theorem functionDecl (name : Ident) {sig : CheckM NamedFunction} (hsig : C.Has sig)
    {body : CheckM Typed.Block} (hbody : C.Has body) (span : Span) :
    C.Has (CheckM.functionDecl name sig body span) :=
  hsig.bind fun sig => Has.bind (C.declare _ _) fun _ =>
    (C.functionOf name hbody span.line sig).bind fun _ => .pure _

theorem requireInterfaces (sig : ClassTy) (line : UInt32) (is : List InterfaceTy) :
    C.Has (CheckM.requireInterfaces sig line is) := by
  induction is with
  | nil => exact .pure ()
  | cons i rest ih =>
      unfold CheckM.requireInterfaces
      cases sig.unprovided? i with
      | some f => exact .fail _ _
      | none => exact ih

theorem methods {methods : List (NamedFunction → CheckM Typed.Function)}
    (h : ∀ m ∈ methods, ∀ f, C.Has (m f)) (sigs : List NamedFunction) :
    C.Has (collect (List.zipWith (fun check f => check f) methods sigs)) := by
  refine .collect fun x hx => ?_
  rcases List.mem_iff_getElem.mp hx with ⟨i, hi, rfl⟩
  rw [List.getElem_zipWith]
  exact h _ (List.getElem_mem _) _

theorem classDecl (name : Ident) {sig : CheckM ClassTy} (hsig : C.Has sig)
    {methods : List (NamedFunction → CheckM Typed.Function)}
    (hmethods : ∀ m ∈ methods, ∀ f, C.Has (m f)) (span : Span) :
    C.Has (CheckM.classDecl name sig methods span) :=
  hsig.bind fun sig => Has.bind (C.declare _ _) fun _ => Has.bind
    (Has.inStmt _ (Has.inScope (Has.inClass sig (C.methods hmethods _)))) fun _ =>
    (C.requireInterfaces sig _ _).bind fun _ => .pure _

/-!
# Expressions
-/

theorem listLiteral {items : List StaticTyping.Operand} (h : ∀ o ∈ items, C.Operand o)
    (span : Span) : C.Has (CheckM.listLiteral items span) := by
  cases items with
  | nil => exact .pure _
  | cons first rest =>
      refine (h first List.mem_cons_self).check.bind fun first => Has.bind
        (Has.collect fun x hx => ?_) fun rest => .pure _
      rcases List.mem_map.mp hx with ⟨o, ho, rfl⟩
      exact (h o (List.mem_cons_of_mem _ ho)).confirm _

theorem mapLiteral {entries : List (StaticTyping.Operand × StaticTyping.Operand)}
    (h : ∀ e ∈ entries, C.Operand e.1 ∧ C.Operand e.2) (span : Span) :
    C.Has (CheckM.mapLiteral entries span) := by
  cases entries with
  | nil => exact .pure _
  | cons first rest =>
      have hfirst := h first List.mem_cons_self
      refine hfirst.1.check.bind fun key => hfirst.2.check.bind fun value => Has.bind
        (Has.collect fun x hx => ?_) fun rest => .pure _
      rcases List.mem_map.mp hx with ⟨e, he, rfl⟩
      have hentry := h e (List.mem_cons_of_mem _ he)
      exact (hentry.1.confirm _).bind fun key => (hentry.2.confirm _).bind fun value => .pure _

theorem isTest {value : CheckM Typed.Expr} (h : C.Has value) (interface : Ident) (span : Span) :
    C.Has (CheckM.isTest value interface span) := by
  refine h.bind fun value => (C.valueOf _ _).bind fun ty => ?_
  cases ty with
  | interfaceTy i => exact .pure _
  | _ => exact .fail _ _

theorem block {stmts : List (CheckM Typed.Stmt)} (h : ∀ x ∈ stmts, C.Has x) (span : Span) :
    C.Has (CheckM.block stmts span) :=
  Has.inExpr _ (Has.inScope ((Has.collect h).bind fun _ => .pure _))

theorem condExpr {condition : StaticTyping.Operand} (hcondition : C.Operand condition)
    {thenBranch : CheckM Typed.Block} (hthen : C.Has thenBranch)
    {otherwise : Option (CheckM Typed.Expr)} (helse : ∀ x ∈ otherwise, C.Has x) (span : Span) :
    C.Has (CheckM.condExpr condition thenBranch otherwise span) := by
  refine (hcondition.confirm _).bind fun condition => hthen.bind fun thenBranch => Has.bind ?_
    fun otherwise => .pure _
  cases otherwise with
  | none => exact .pure none
  | some x =>
      exact (helse x rfl).bind fun branch => (Has.require _ _ _).bind fun _ => .pure _

/-!
# Statements
-/

theorem forLoop {init : Option (CheckM Typed.Stmt)} (hinit : ∀ x ∈ init, C.Has x)
    {condition increment : Option StaticTyping.Operand} (hcondition : ∀ o ∈ condition, C.Operand o)
    (hincrement : ∀ o ∈ increment, C.Operand o) {body : List (CheckM Typed.Stmt)}
    (hbody : ∀ x ∈ body, C.Has x) (span : Span) :
    C.Has (CheckM.forLoop init condition increment body span) := by
  refine Has.inStmt _ (Has.inScope ((Has.optional hinit).bind fun init => Has.bind
    (Has.optional fun x hx => ?_) fun condition => Has.bind (Has.optional fun x hx => ?_)
    fun increment => (Has.collect hbody).bind fun body => .pure _))
  · rcases Option.map_eq_some_iff.mp hx with ⟨o, ho, rfl⟩
    exact (hcondition o ho).confirm _
  · rcases Option.map_eq_some_iff.mp hx with ⟨o, ho, rfl⟩
    exact (hincrement o ho).check

theorem forEach (name : Ident) {iterable : CheckM Typed.Expr} (h : C.Has iterable)
    {body : List (CheckM Typed.Stmt)} (hbody : ∀ x ∈ body, C.Has x) (span : Span) :
    C.Has (CheckM.forEach name iterable body span) :=
  Has.inStmt _ (Has.inScope (h.bind fun _ => (Has.orFail _ _ _).bind fun _ =>
    Has.bind (C.declare _ _) fun _ => (Has.collect hbody).bind fun _ => .pure _))

theorem whileLoop {condition : StaticTyping.Operand} (h : C.Operand condition)
    {body : List (CheckM Typed.Stmt)} (hbody : ∀ x ∈ body, C.Has x) (span : Span) :
    C.Has (CheckM.whileLoop condition body span) :=
  Has.inStmt _ (Has.inScope ((h.confirm _).bind fun _ =>
    (Has.collect hbody).bind fun _ => .pure _))

theorem returnStmt {value : Option StaticTyping.Operand} (h : ∀ o ∈ value, C.Operand o)
    (span : Span) : C.Has (CheckM.returnStmt value span) := by
  refine Has.inStmt _ (Has.bind (Has.optional fun x hx => ?_) fun value => .pure _)
  rcases Option.map_eq_some_iff.mp hx with ⟨o, ho, rfl⟩
  exact (h o ho).check

theorem importsStmt {imports : List Source.Import}
    (h : ∀ i ∈ imports, C.Has (CheckM.importModule i)) (span : Span) :
    C.Has (CheckM.importsStmt imports span) := by
  refine Has.bind (Has.collect fun x hx => ?_) fun targets => .pure _
  rcases List.mem_map.mp hx with ⟨i, hi, rfl⟩
  exact h i hi

/-!
# Trees

Where imports need not respect the property, the tree has to meet the condition that excludes them.
-/

def Admits (met : Bool) : Prop :=
  C.imports ∨ met = true

section Admits

variable {C} {a b : Bool}

theorem Admits.left (h : C.Admits (a && b)) : C.Admits a :=
  h.imp_right fun h => (Bool.and_eq_true_iff.mp h).1

theorem Admits.right (h : C.Admits (a && b)) : C.Admits b :=
  h.imp_right fun h => (Bool.and_eq_true_iff.mp h).2

end Admits

mutual

theorem expr : ∀ e : Source.Expr, C.Admits (e.meets c) → C.Has (Checker.expr e)
  | ⟨kind, span⟩, h => by
      have hkind := exprKind kind h span
      unfold Checker.expr
      split
      · exact hkind
      · exact hkind.inExpr _
termination_by structural e => e

theorem exprKind : ∀ k : Source.ExprKind, C.Admits (k.meets c) → ∀ span,
    C.Has (Checker.exprKind k span)
  | .int _, _, _ => .pure _
  | .float _, _, _ => .pure _
  | .string _, _, _ => .pure _
  | .char _, _, _ => .pure _
  | .bool _, _, _ => .pure _
  | .nil, _, _ => .pure _
  | .list items, h, span => C.listLiteral (operands items h.right) span
  | .map es, h, span => C.mapLiteral (entries es h.right) span
  | .var name, _, _ => (C.variableTy name).bind fun _ => .pure _
  | .this, _, _ => (Has.view _).bind fun _ => (Has.orFail _ _ _).bind fun _ => .pure _
  | .assign _ value, h, _ =>
      (C.valueOf _ _).bind fun _ =>
        ((C.operand value (expr value h.right)).confirm _).bind fun _ => .pure _
  | .increment e, h, _ =>
      (expr e h.right).bind fun _ => (Has.require _ _ _).bind fun _ => .pure _
  | .decrement e, h, _ =>
      (expr e h.right).bind fun _ => (Has.require _ _ _).bind fun _ => .pure _
  | .binary left _ right, h, _ =>
      (expr left h.left.right).bind fun _ =>
        ((C.operand right (expr right h.right)).confirm _).bind fun _ => .pure _
  | .logical left _ right, h, _ =>
      (expr left h.left.right).bind fun _ =>
        ((C.operand right (expr right h.right)).confirm _).bind fun _ => .pure _
  | .unary _ e, h, _ =>
      (expr e h.right).bind fun _ => (Has.require _ _ _).bind fun _ => .pure _
  | .group e, h, _ => (expr e h.right).bind fun _ => .pure _
  | .is value interface, h, span => C.isTest (expr value h.right) interface span
  | .call callee args callSpan, h, _ =>
      (C.call callee (expr callee h.left.right) (arguments args h.right) callSpan).bind fun _ =>
        .pure _
  | .get object name, h, _ => (C.member object (expr object h.right) name).bind fun _ => .pure _
  | .set object name value, h, _ =>
      ((C.member object (expr object h.left.right) name).mapCause _).bind fun _ =>
        ((C.operand value (expr value h.right)).confirm _).bind fun _ => .pure _
  | .index object index, h, _ =>
      (expr object h.left.right).bind fun _ => (Has.orFail _ _ _).bind fun _ =>
        (expr index h.right).bind fun _ => (Has.require _ _ _).bind fun _ => .pure _
  | .slice object lower upper, h, _ =>
      (expr object h.left.left.right).bind fun _ => (Has.orFail _ _ _).bind fun _ =>
        (expr lower h.left.right).bind fun _ => (expr upper h.right).bind fun _ =>
          (Has.require _ _ _).bind fun _ => (Has.require _ _ _).bind fun _ => .pure _
  | .block b, h, _ => (blockOf b h.right).bind fun _ => .pure _
  | .cond condition thenBranch otherwise, h, span =>
      C.condExpr (C.operand condition (expr condition h.left.left.right))
        (blockOf thenBranch h.left.right) (exprOption otherwise h.right) span
  | .lambda ps ret body, h, span =>
      (C.signature (params ps h.left.left.right) ret span.line).bind fun sig =>
        (C.functionBody sig (blockOf body h.right) span.line).bind fun _ => .pure _
termination_by structural k => k

theorem operands : ∀ es : List Source.Expr, C.Admits (Source.Expr.allMeet c es) →
    ∀ o ∈ Checker.operands es, C.Operand o
  | [], _, _, ho => absurd ho List.not_mem_nil
  | e :: es, h, o, ho => by
      rcases List.mem_cons.mp ho with rfl | ho
      · exact C.operand e (expr e h.left)
      · exact operands es h.right o ho
termination_by structural es => es

theorem entries : ∀ es : List Source.Entry, C.Admits (Source.Entry.allMeet c es) →
    ∀ e ∈ Checker.entries es, C.Operand e.1 ∧ C.Operand e.2
  | [], _, _, he => absurd he List.not_mem_nil
  | ⟨key, value⟩ :: es, h, e, he => by
      rcases List.mem_cons.mp he with rfl | he
      · exact ⟨C.operand key (expr key h.left.left), C.operand value (expr value h.left.right)⟩
      · exact entries es h.right e he
termination_by structural es => es

theorem arguments : ∀ args : List Source.Arg, C.Admits (Source.Arg.allMeet c args) →
    ∀ a ∈ Checker.arguments args, C.Operand a.value
  | [], _, _, ha => absurd ha List.not_mem_nil
  | ⟨_, value⟩ :: args, h, a, ha => by
      rcases List.mem_cons.mp ha with rfl | ha
      · exact C.operand value (expr value h.left)
      · exact arguments args h.right a ha
termination_by structural args => args

theorem exprOption : ∀ e : Option Source.Expr, C.Admits (Source.Expr.optionMeets c e) →
    ∀ x ∈ Checker.exprOption e, C.Has x
  | none, _, _, hx => absurd hx (Option.not_mem_none _)
  | some e, h, _, hx => by
      cases hx
      exact expr e h
termination_by structural e => e

theorem operandOption : ∀ e : Option Source.Expr,
    C.Admits (Source.Expr.optionMeets c e) → ∀ o ∈ Checker.operandOption e, C.Operand o
  | none, _, _, ho => absurd ho (Option.not_mem_none _)
  | some e, h, _, ho => by
      cases ho
      exact C.operand e (expr e h)
termination_by structural e => e

theorem defaultOption : ∀ e : Option Source.Expr,
    C.Admits (Source.Expr.optionMeets c e) → ∀ d ∈ Checker.defaultOption e, C.Operand d.2
  | none, _, _, hd => absurd hd (Option.not_mem_none _)
  | some e, h, _, hd => by
      cases hd
      exact C.operand e (expr e h)
termination_by structural e => e

theorem params : ∀ ps : List Source.Param, C.Admits (Source.Param.allMeet c ps) →
    ∀ x ∈ Checker.params ps, C.Has x
  | [], _, _, hx => absurd hx List.not_mem_nil
  | ⟨name, ty, variadic, default⟩ :: ps, h, x, hx => by
      rcases List.mem_cons.mp hx with rfl | hx
      · exact C.param name ty variadic (defaultOption default h.left.right)
      · exact params ps h.right x hx
termination_by structural ps => ps

theorem head : ∀ h : Source.Head, C.Admits (h.meets c) → ∀ line,
    C.Has (Checker.head h line)
  | ⟨_, _, ps, ret⟩, h, line =>
      (C.signature (params ps h.left.right) ret line).bind fun _ => .pure _
termination_by structural h => h

theorem blockOf : ∀ b : Source.Block, C.Admits (b.meets c) → C.Has (Checker.blockOf b)
  | ⟨ss, span⟩, h => C.block (stmts ss h) span
termination_by structural b => b

theorem methodHeads : ∀ ms : List Source.Method, C.Admits (Source.Method.allMeet c ms) →
    ∀ x ∈ Checker.methodHeads ms, C.Has x
  | [], _, _, hx => absurd hx List.not_mem_nil
  | ⟨h, _, span⟩ :: ms, hm, x, hx => by
      rcases List.mem_cons.mp hx with rfl | hx
      · exact head h hm.left.left span.line
      · exact methodHeads ms hm.right x hx
termination_by structural ms => ms

theorem methodBodies : ∀ ms : List Source.Method, C.Admits (Source.Method.allMeet c ms) →
    ∀ m ∈ Checker.methodBodies ms, ∀ f, C.Has (m f)
  | [], _, _, hm => absurd hm List.not_mem_nil
  | ⟨⟨name, _, _, _⟩, body, span⟩ :: ms, h, m, hm => by
      rcases List.mem_cons.mp hm with rfl | hm
      · exact C.functionOf name (blockOf body h.left.right) span.line
      · exact methodBodies ms h.right m hm
termination_by structural ms => ms

theorem requirements : ∀ rs : List Source.Requirement,
    C.Admits (Source.Requirement.allMeet c rs) →
    ∀ x ∈ Checker.requirements rs, C.Has x
  | [], _, _, hx => absurd hx List.not_mem_nil
  | ⟨h, span⟩ :: rs, hr, x, hx => by
      rcases List.mem_cons.mp hx with rfl | hx
      · exact head h hr.left span.line
      · exact requirements rs hr.right x hx
termination_by structural rs => rs

theorem classOf : ∀ d : Source.ClassDecl, C.Admits (d.meets c) →
    C.Has (Checker.classOf d)
  | ⟨name, visibility, ps, ms, implements⟩, h =>
      C.classHead name visibility (params ps h.left.right) (methodHeads ms h.right) implements
termination_by structural d => d

theorem classWith : ∀ d : Source.ClassDecl, C.Admits (d.meets c) →
    ∀ {sig : CheckM ClassTy}, C.Has sig → ∀ span, C.Has (Checker.classWith d sig span)
  | ⟨name, _, _, ms, _⟩, h, _, hsig, span => C.classDecl name hsig (methodBodies ms h.right) span
termination_by structural d => d

theorem interfaceOf : ∀ d : Source.InterfaceDecl, C.Admits (d.meets c) →
    C.Has (Checker.interfaceOf d)
  | ⟨name, visibility, rs⟩, h => C.interfaceHead name visibility (requirements rs h)
termination_by structural d => d

theorem bindingOf : ∀ d : Source.Binding, C.Admits (d.meets c) → ∀ span,
    C.Has (Checker.bindingOf d span)
  | ⟨name, isMutable, written, init⟩, h, span =>
      C.binding name isMutable written (operandOption init h.right) span
termination_by structural d => d

theorem stmt : ∀ s : Source.Stmt, C.Admits (s.meets c) → C.Has (Checker.stmt s)
  | ⟨kind, span⟩, h => stmtKind kind h span
termination_by structural s => s

theorem stmtOption : ∀ s : Option Source.Stmt, C.Admits (Source.Stmt.optionMeets c s) →
    ∀ x ∈ Checker.stmtOption s, C.Has x
  | none, _, _, hx => absurd hx (Option.not_mem_none _)
  | some s, h, _, hx => by
      cases hx
      exact stmt s h
termination_by structural s => s

theorem stmts : ∀ ss : List Source.Stmt, C.Admits (Source.Stmt.allMeet c ss) →
    ∀ x ∈ Checker.stmts ss, C.Has x
  | [], _, _, hx => absurd hx List.not_mem_nil
  | s :: ss, h, x, hx => by
      rcases List.mem_cons.mp hx with rfl | hx
      · exact stmt s h.left
      · exact stmts ss h.right x hx
termination_by structural ss => ss

theorem stmtKind : ∀ k : Source.StmtKind, C.Admits (k.meets c) → ∀ span,
    C.Has (Checker.stmtKind k span)
  | .defer callee args callSpan, h, _ =>
      Has.inStmt _ ((C.call callee (expr callee h.left.right) (arguments args h.right)
        callSpan).bind fun _ => .pure _)
  | .expr value, h, _ => (expr value h.right).bind fun _ => .pure _
  | .forLoop init condition increment body, h, span =>
      C.forLoop (stmtOption init h.left.left.left.right)
        (operandOption condition h.left.left.right) (operandOption increment h.left.right)
        (stmts body h.right) span
  | .forEach name iterable body, h, span =>
      C.forEach name (expr iterable h.left.right) (stmts body h.right) span
  | .whileLoop condition body, h, span =>
      C.whileLoop (C.operand condition (expr condition h.left.right)) (stmts body h.right) span
  | .function hd body, h, span =>
      C.functionDecl hd.name (head hd h.left.right span.line) (blockOf body h.right) span
  | .binding d, h, span => bindingOf d h.right span
  | .moduleName _, _, _ => .pure _
  | .ret value, h, span => C.returnStmt (operandOption value h.right) span
  | .yield value, h, _ =>
      (Has.view _).bind fun _ => (Has.require _ _ _).bind fun _ =>
        (expr value h.right).bind fun _ => .pure _
  | .classDecl d, h, span => classWith d h.right (classOf d h.right) span
  | .interfaceDecl d, h, span => C.interfaceDecl (interfaceOf d h.right) span
  | .importOne _ _, h, span => by
      have hone := h.elim Or.inl C.one
      exact Has.bind (hone.elim (fun h => C.importModule h _) fun h => h span) fun _ => .pure _
  | .importMany _, h, span => by
      have hmany := h.elim Or.inl C.many
      exact C.importsStmt (hmany.elim (fun h i _ => C.importModule h i) id) span
  | .comment _, _, _ => .pure _
  | .continueLoop, _, _ => (Has.view _).bind fun _ => (Has.require _ _ _).bind fun _ => .pure _
  | .breakLoop, _, _ => (Has.view _).bind fun _ => (Has.require _ _ _).bind fun _ => .pure _
termination_by structural k => k

end

/-!
# Files

Both passes over a file consist of attempts, and a fault of one only adds to the report.
-/

theorem fillSlot (hattempts : C.Attempts) {phase : Checker.Phase} {slot : Slot}
    (h : ∀ x, phase slot.stmt = some x → C.Has x) : C.Has (Checker.fillSlot phase slot) := by
  unfold Checker.fillSlot
  split
  · exact .pure slot
  next x hx =>
    refine Has.bind (.attempt hattempts (h x hx)) fun item => ?_
    cases item with
    | some item => exact .pure _
    | none => exact .pure slot

theorem runPhase (hattempts : C.Attempts) {phase : Checker.Phase} {slots : List Slot}
    (h : ∀ slot ∈ slots, ∀ x, phase slot.stmt = some x → C.Has x) :
    C.Has (Checker.runPhase phase slots) := by
  refine Has.collect fun x hx => ?_
  rcases List.mem_map.mp hx with ⟨slot, hslot, rfl⟩
  exact C.fillSlot hattempts (h slot hslot)

theorem importPhase {s : Source.Stmt} (h : C.Admits (s.meets c)) {x : CheckM Item}
    (hx : Checker.importPhase s = some x) : C.Has x := by
  unfold Checker.importPhase at hx
  split at hx
  · cases hx
    exact (C.stmt _ h).map _
  · cases hx
    exact (C.stmt _ h).map _
  · cases hx

theorem interfacePhase {s : Source.Stmt} (h : C.Admits (s.meets c)) {x : CheckM Item}
    (hx : Checker.interfacePhase s = some x) : C.Has x := by
  unfold Checker.interfacePhase at hx
  split at hx
  · cases hx
    exact (C.stmt _ h).map _
  · cases hx

theorem classPhase {s : Source.Stmt} (h : C.Admits (s.meets c)) {x : CheckM Item}
    (hx : Checker.classPhase s = some x) : C.Has x := by
  unfold Checker.classPhase at hx
  split at hx
  · cases hx
    exact (C.classOf _ h.right).bind fun sig => Has.bind (C.declare _ _) fun _ => .pure _
  · cases hx

theorem functionPhase {s : Source.Stmt} (h : C.Admits (s.meets c)) {x : CheckM Item}
    (hx : Checker.functionPhase s = some x) : C.Has x := by
  unfold Checker.functionPhase at hx
  split at hx
  · cases hx
    exact (C.head _ h.left.right _).bind fun sig => Has.bind (C.declare _ _) fun _ => .pure _
  · cases hx

theorem bindingPhase {s : Source.Stmt} (h : C.Admits (s.meets c)) {x : CheckM Item}
    (hx : Checker.bindingPhase s = some x) : C.Has x := by
  unfold Checker.bindingPhase at hx
  split at hx
  · cases hx
    exact (C.stmt _ h).map _
  · cases hx

theorem outline (h : C.imports) (ss : List Source.Stmt) : C.Has (Checker.outline ss) := by
  have hattempts : C.Attempts := C.attempts h
  have admits : ∀ met, C.Admits met := fun _ => Or.inl h
  refine Has.bind (C.runPhase hattempts fun _ _ _ => C.importPhase (admits _)) fun slots =>
    (C.declareAll _).bind fun _ =>
    Has.bind (C.runPhase hattempts fun _ _ _ => C.interfacePhase (admits _)) fun slots =>
    Has.bind (C.runPhase hattempts fun _ _ _ => C.classPhase (admits _)) fun slots =>
    Has.bind (C.runPhase hattempts fun _ _ _ => C.functionPhase (admits _)) fun slots =>
    Has.bind (C.runPhase hattempts fun _ _ _ => C.bindingPhase (admits _)) fun slots => .pure _

theorem finishItem (h : C.imports) (item : Item) : C.Has (Checker.finishItem item) := by
  cases item with
  | function h' body span sig =>
      exact C.functionDecl _ (.pure sig) (C.blockOf body (Or.inl h)) span
  | classDecl d span sig => exact C.classWith d (Or.inl h) (.pure sig) span
  | checked s => exact .pure s
  | unchecked s => exact C.stmt s (Or.inl h)

theorem finish (h : C.imports) (items : List Item) : C.Has (Checker.finish items) := by
  refine Has.bind (Has.collect fun x hx => ?_) fun stmts => .pure _
  rcases List.mem_map.mp hx with ⟨item, _, rfl⟩
  exact C.attempts h (C.finishItem h item)

end Closure
end StaticTyping
