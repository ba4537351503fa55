import StaticTyping.Proofs.Soundness.Outline

/-!
# What the signature of a class or an interface depends on

A signature is made from the types that are written in it, from the interfaces it says it
implements, and from default values.  If these are made of literals, nothing is read but the
written names, and nothing changes.  So two declarations that do not mention what the other one
declares can be exchanged.
-/

namespace StaticTyping

open CheckM

variable {α β : Type}

/-!
# Checks that read some names only
-/

/-- Two states in which some names stand for the same, and a file has imported the same. -/
structure Env.Agree (env : Env) (names : String → Prop) (s t : State) : Prop where
  find : ∀ {name}, names name →
    env.find? t.session.symbols name = env.find? s.session.symbols name
  imported : ∀ localName,
    env.imported? t.session.symbols localName = env.imported? s.session.symbols localName

namespace Env.Agree

variable {env : Env} {names : String → Prop} {s t u : State}

theorem refl (s : State) : env.Agree names s s :=
  ⟨fun _ => rfl, fun _ => rfl⟩

theorem trans (h : env.Agree names s t) (h' : env.Agree names t u) : env.Agree names s u :=
  ⟨fun hname => (h'.find hname).trans (h.find hname),
    fun localName => (h'.imported localName).trans (h.imported localName)⟩

theorem symm (h : env.Agree names s t) : env.Agree names t s :=
  ⟨fun hname => (h.find hname).symm, fun localName => (h.imported localName).symm⟩

theorem value? (h : env.Agree names s t) {name : String} (hname : names name) :
    env.value? t.session.symbols name = env.value? s.session.symbols name := by
  unfold Env.value?
  rw [h.find hname, h.imported name]

theorem typeName? (h : env.Agree names s t) {name : String} (hname : names name) :
    env.typeName? t.session.symbols name = env.typeName? s.session.symbols name := by
  unfold Env.typeName?
  split
  · rw [h.imported]
  · rw [h.find hname]

end Env.Agree

/-- A check that changes nothing, comes to the same in all states that agree on some names, and
gives values that satisfy a condition. -/
def CheckM.Reads (env : Env) (names : String → Prop) (x : CheckM α) (P : α → Prop) : Prop :=
  ∀ s t : State, env.Agree names s t →
    ∃ r, x env s = (r, s) ∧ x env t = (r, t) ∧ ∀ a, r = .ok a → P a

namespace CheckM.Reads

variable {env : Env} {names : String → Prop} {P : α → Prop} {Q : β → Prop}

theorem pure {a : α} (h : P a) : (pure a : CheckM α).Reads env names P := by
  intro s t _
  refine ⟨.ok a, rfl, rfl, fun b hb => ?_⟩
  cases hb
  exact h

theorem fail (cause : Cause) (line : UInt32) :
    (CheckM.fail cause line : CheckM α).Reads env names P :=
  fun _ _ _ => ⟨.error ⟨cause, line⟩, rfl, rfl, fun _ h => by cases h⟩

theorem view {f : Env → State → α} (hsame : ∀ {s t}, env.Agree names s t → f env t = f env s)
    (h : ∀ s, P (f env s)) : (CheckM.view f).Reads env names P := by
  intro s t hagree
  refine ⟨.ok (f env s), rfl, congrArg (fun a => (Except.ok a, t)) (hsame hagree), fun a ha => ?_⟩
  cases ha
  exact h s

theorem bind {x : CheckM α} {f : α → CheckM β} (hx : x.Reads env names P)
    (hf : ∀ a, P a → (f a).Reads env names Q) : (x >>= f).Reads env names Q := by
  intro s t hagree
  rcases hx s t hagree with ⟨r, hs, ht, hr⟩
  cases r with
  | error e =>
      exact ⟨.error e, bind_apply_of_error hs, bind_apply_of_error ht, fun _ h => by cases h⟩
  | ok a =>
      rcases hf a (hr a rfl) s t hagree with ⟨r', hs', ht', hr'⟩
      exact ⟨r', (bind_apply_of_ok hs).trans hs', (bind_apply_of_ok ht).trans ht', hr'⟩

theorem mono {x : CheckM α} {P' : α → Prop} (hx : x.Reads env names P) (h : ∀ a, P a → P' a) :
    x.Reads env names P' := by
  intro s t hagree
  rcases hx s t hagree with ⟨r, hs, ht, hr⟩
  exact ⟨r, hs, ht, fun a ha => h a (hr a ha)⟩

theorem require (ok : Bool) (cause : Cause) (line : UInt32) :
    (CheckM.require ok cause line).Reads env names fun _ => True := by
  unfold CheckM.require
  cases ok with
  | true => exact .pure trivial
  | false => exact .fail cause line

theorem orFail (o : Option α) (cause : Cause) (line : UInt32) :
    (CheckM.orFail o cause line).Reads env names fun _ => True := by
  cases o with
  | none => exact .fail cause line
  | some a => exact .pure trivial

theorem collect {xs : List (CheckM α)} (h : ∀ x ∈ xs, x.Reads env names P) :
    (CheckM.collect xs).Reads env names fun _ => True := by
  induction xs with
  | nil => exact .pure trivial
  | cons x xs ih =>
      rcases List.forall_mem_cons.mp h with ⟨hx, hxs⟩
      exact hx.bind fun a _ => (ih hxs).bind fun as _ => .pure trivial

theorem inExpr (c : ExprContext) {x : CheckM α} (hx : x.Reads env names P) :
    (CheckM.inExpr c x).Reads env names P := by
  intro s t hagree
  have hinside : env.Agree names { s with exprs := s.exprs.push c }
      { t with exprs := t.exprs.push c } := ⟨hagree.find, hagree.imported⟩
  rcases hx _ _ hinside with ⟨r, hs, ht, hr⟩
  refine ⟨r, ?_, ?_, hr⟩
  · show ((x env { s with exprs := s.exprs.push c }).1, _) = _
    rw [hs]
    rfl
  · show ((x env { t with exprs := t.exprs.push c }).1, _) = _
    rw [ht]
    rfl

theorem valueOf {name : String} (hname : names name) (line : UInt32) :
    (CheckM.valueOf name line).Reads env names fun _ => True :=
  bind (view (P := fun _ => True) (fun hagree => hagree.value? hname) fun _ => trivial)
    fun _ _ => .orFail _ _ _

theorem resolveTy {ty : Ty} (hty : ∀ name ∈ ty.names, names name) (line : UInt32) :
    (CheckM.resolveTy ty line).Reads env names fun _ => True := by
  refine bind (view (P := fun _ => True) (fun hagree => ?_) fun _ => trivial) fun r _ => ?_
  · exact Ty.resolve_congr ty fun name hname => hagree.typeName? (hty name hname)
  · cases r with
    | ok ty => exact .pure trivial
    | error name => exact .fail _ _

end CheckM.Reads

/-!
# Literals and operators
-/

def Source.ExprKind.isPlain : Source.ExprKind → Bool
  | .int _ | .float _ | .string _ | .char _ | .bool _ | .nil | .list _ | .map _ | .increment _
  | .decrement _ | .binary _ _ _ | .logical _ _ _ | .unary _ _ | .group _ => true
  | _ => false

/-- What is asked of a header that does not mention some names: values that are made of literals by
operators, and other names in annotations and among the interfaces. -/
def Source.Condition.apart (names : List String) : Source.Condition where
  expr := Source.ExprKind.isPlain
  ty t := t.names.all (!names.contains ·)
  name n := !names.contains n

def Typed.Expr.Classless (e : Typed.Expr) : Prop :=
  ∀ c, e.ty ≠ .classTy c

theorem Env.accepts_of_classless (env : Env) (t : SymbolTable) (expected : Ty) {e : Typed.Expr}
    (h : e.Classless) : env.accepts t expected e.ty = expected.accepts e.ty := by
  unfold Env.accepts
  split
  next i c hclass => exact (h c hclass).elim
  next => rfl

theorem Source.ExprKind.isPlain_of_meets {names : List String} {k : Source.ExprKind}
    (h : Source.Met (k.meets (.apart names))) : k.isPlain := by
  cases k with
  | int | float | string | char | bool | nil | list | map | increment | decrement | binary | logical
  | unary | group => rfl
  | _ => cases h

/-- Whether what a class or an interface declares of itself meets a condition, whatever the bodies
of methods are. -/
def Source.Stmt.headMeets (c : Source.Condition) : Source.Stmt → Bool
  | ⟨.classDecl d, _⟩ => Source.Param.allMeet c d.params && d.methods.all (·.head.meets c) &&
      d.implements.all fun i => c.name i.name
  | ⟨.interfaceDecl d, _⟩ => d.methods.all (·.head.meets c)
  | _ => false

/-- The names that a statement declares where it stands. -/
def Source.Stmt.declares : Source.Stmt → List String
  | ⟨.function h _, _⟩ => [h.name.name]
  | ⟨.classDecl d, _⟩ => [d.name.name]
  | ⟨.interfaceDecl d, _⟩ => d.name.name :: d.methods.map (·.head.name.name)
  | ⟨.binding d, _⟩ => [d.name.name]
  | _ => []

namespace CheckM.Reads

variable {env : Env} {names : String → Prop}

structure Operand (env : Env) (names : String → Prop) (o : StaticTyping.Operand) : Prop where
  check : o.check.Reads env names Typed.Expr.Classless
  confirm : ∀ ty, (o.confirm ty).Reads env names Typed.Expr.Classless

theorem operand (e : Source.Expr) {check : CheckM Typed.Expr}
    (h : check.Reads env names Typed.Expr.Classless) : Operand env names (.ofExpr e check) := by
  refine ⟨h, fun ty => ?_⟩
  have hadopt : (adoptOr e check ty).Reads env names Typed.Expr.Classless := by
    unfold adoptOr adopted?
    split
    next literal hadopted =>
      refine .pure fun c hc => ?_
      split at hadopted
      · cases hadopted
        cases hc
      · cases hadopted
        cases hc
      · cases hadopted
    next => exact h
  refine hadopt.bind fun typed htyped => Reads.bind (P := fun _ => True)
    (.view (fun {s t} _ => ?_) fun _ => trivial) fun ok _ =>
    (Reads.require ok _ _).bind fun _ _ => .pure htyped
  exact (env.accepts_of_classless _ ty htyped).trans (env.accepts_of_classless _ ty htyped).symm

theorem listLiteral {items : List StaticTyping.Operand} (h : ∀ o ∈ items, Operand env names o)
    (span : Span) : (CheckM.listLiteral items span).Reads env names Typed.Expr.Classless := by
  cases items with
  | nil => exact .pure fun _ hc => by cases hc
  | cons first rest =>
      refine (h first List.mem_cons_self).check.bind fun first _ => Reads.bind
        (Reads.collect (P := Typed.Expr.Classless) fun x hx => ?_) fun rest _ =>
        .pure fun _ hc => by cases hc
      rcases List.mem_map.mp hx with ⟨o, ho, rfl⟩
      exact (h o (List.mem_cons_of_mem _ ho)).confirm _

theorem mapLiteral {entries : List (StaticTyping.Operand × StaticTyping.Operand)}
    (h : ∀ e ∈ entries, Operand env names e.1 ∧ Operand env names e.2) (span : Span) :
    (CheckM.mapLiteral entries span).Reads env names Typed.Expr.Classless := by
  cases entries with
  | nil => exact .pure fun _ hc => by cases hc
  | cons first rest =>
      have hfirst := h first List.mem_cons_self
      refine hfirst.1.check.bind fun key _ => hfirst.2.check.bind fun value _ => Reads.bind
        (Reads.collect (P := fun _ => True) fun x hx => ?_) fun rest _ =>
        .pure fun _ hc => by cases hc
      rcases List.mem_map.mp hx with ⟨e, he, rfl⟩
      have hentry := h e (List.mem_cons_of_mem _ he)
      exact (hentry.1.confirm _).bind fun key _ => (hentry.2.confirm _).bind fun value _ =>
        .pure trivial

/-- An operator that asks something of its operand and has the type of it. -/
theorem applied {operand : CheckM Typed.Expr} (h : operand.Reads env names Typed.Expr.Classless)
    {applies : Typed.Expr → Bool} {cause : Typed.Expr → Cause} {line : UInt32}
    {made : Typed.Expr → Typed.Expr} (hty : ∀ e, (made e).ty = e.ty) :
    (do
      let e ← operand
      CheckM.require (applies e) (cause e) line
      Pure.pure (made e) : CheckM Typed.Expr).Reads env names Typed.Expr.Classless := by
  refine h.bind fun e he => (Reads.require _ _ _).bind fun _ _ => .pure fun c => ?_
  rw [hty]
  exact he c

theorem group {inner : CheckM Typed.Expr} (h : inner.Reads env names Typed.Expr.Classless)
    (span : Span) : (CheckM.group inner span).Reads env names Typed.Expr.Classless :=
  h.bind fun _ he => .pure he

theorem binary {left : CheckM Typed.Expr} (hleft : left.Reads env names Typed.Expr.Classless)
    (op : BinaryOp) {right : StaticTyping.Operand} (hright : Operand env names right)
    (span : Span) : (CheckM.binary left op right span).Reads env names Typed.Expr.Classless :=
  hleft.bind fun l hl => (hright.confirm l.ty).bind fun _ _ => .pure hl

theorem logical {left : CheckM Typed.Expr} (hleft : left.Reads env names Typed.Expr.Classless)
    (op : LogicalOp) {right : StaticTyping.Operand} (hright : Operand env names right)
    (span : Span) : (CheckM.logical left op right span).Reads env names Typed.Expr.Classless :=
  hleft.bind fun l _ => (hright.confirm l.ty).bind fun _ _ => .pure fun _ hc => by cases hc

mutual

theorem expr {avoided : List String} : ∀ e : Source.Expr,
    Source.Met (e.meets (.apart avoided)) →
    (Checker.expr e).Reads env names Typed.Expr.Classless
  | ⟨kind, span⟩, h => by
      have hkind := exprKind kind h span
      unfold Checker.expr
      split
      · exact hkind
      · exact hkind.inExpr _
termination_by structural e => e

theorem exprKind {avoided : List String} : ∀ k : Source.ExprKind,
    Source.Met (k.meets (.apart avoided)) → ∀ span,
    (Checker.exprKind k span).Reads env names Typed.Expr.Classless
  | .int _, _, _ | .float _, _, _ | .string _, _, _ | .char _, _, _ | .bool _, _, _ | .nil, _, _ =>
      .pure fun _ hc => by cases hc
  | .list items, h, span => listLiteral (operands items h) span
  | .map es, h, span => mapLiteral (entries es h) span
  | .increment e, h, _ | .decrement e, h, _ | .unary _ e, h, _ => applied (expr e h) fun _ => rfl
  | .binary left op right, h, span =>
      binary (expr left h.left.right) op (operand right (expr right h.right)) span
  | .logical left op right, h, span =>
      logical (expr left h.left.right) op (operand right (expr right h.right)) span
  | .group e, h, span => group (expr e h) span
  | .var _, h, _ | .this, h, _ | .assign _ _, h, _ | .is _ _, h, _ | .call _ _ _, h, _
  | .get _ _, h, _ | .set _ _ _, h, _ | .index _ _, h, _ | .slice _ _ _, h, _ | .block _, h, _
  | .cond _ _ _, h, _ | .lambda _ _ _, h, _ =>
      (Bool.false_ne_true (Source.ExprKind.isPlain_of_meets h)).elim
termination_by structural k => k

theorem operands {avoided : List String} : ∀ es : List Source.Expr,
    Source.Met (Source.Expr.allMeet (.apart avoided) es) →
    ∀ o ∈ Checker.operands es, Operand env names o
  | [], _, _, ho => absurd ho List.not_mem_nil
  | e :: es, h, o, ho => by
      rcases List.mem_cons.mp ho with rfl | ho
      · exact operand e (expr e h.left)
      · exact operands es h.right o ho
termination_by structural es => es

theorem entries {avoided : List String} : ∀ es : List Source.Entry,
    Source.Met (Source.Entry.allMeet (.apart avoided) es) →
    ∀ e ∈ Checker.entries es, Operand env names e.1 ∧ Operand env names e.2
  | [], _, _, he => absurd he List.not_mem_nil
  | ⟨key, value⟩ :: es, h, e, he => by
      rcases List.mem_cons.mp he with rfl | he
      · exact ⟨operand key (expr key h.left.left), operand value (expr value h.left.right)⟩
      · exact entries es h.right e he
termination_by structural es => es

end

/-!
# Headers
-/

variable {avoided : List String}

theorem writtenTy {ty : Ty} (h : Source.Met ((Source.Condition.apart avoided).ty ty))
    (line : UInt32) : (CheckM.resolveTy ty line).Reads env (· ∉ avoided) fun _ => True := by
  refine resolveTy (fun name hname => ?_) line
  have hother := List.all_eq_true.mp h name hname
  simpa using hother

theorem params : ∀ ps : List Source.Param, Source.Met (Source.Param.allMeet (.apart avoided) ps) →
    ∀ x ∈ Checker.params ps, x.Reads env (· ∉ avoided) fun _ => True
  | [], _, _, hx => absurd hx List.not_mem_nil
  | ⟨name, ty, variadic, default⟩ :: ps, h, x, hx => by
      rcases List.mem_cons.mp hx with rfl | hx
      · refine (writtenTy h.left.left _).bind fun ty _ => ?_
        cases default with
        | none => exact .pure trivial
        | some e =>
            have he : Source.Met (e.meets (.apart avoided)) := h.left.right
            exact Reads.bind
              ((Reads.require _ _ _).bind fun _ _ => (operand e (expr e he)).confirm _)
              fun value _ => .pure trivial
      · exact params ps h.right x hx

theorem head {h : Source.Head} (hmeets : Source.Met (h.meets (.apart avoided))) (line : UInt32) :
    (Checker.head h line).Reads env (· ∉ avoided) fun f => f.name = h.name.name := by
  rcases h with ⟨name, visibility, ps, ret⟩
  have hret : (CheckM.resultTy ret line).Reads env (· ∉ avoided) fun _ => True := by
    cases ret with
    | none => exact .pure trivial
    | some ty => exact writtenTy hmeets.right line
  have hsig : (CheckM.signature (Checker.params ps) ret line).Reads env (· ∉ avoided)
      fun _ => True :=
    (Reads.collect (params ps hmeets.left.right)).bind fun params _ => hret.bind fun ret _ =>
      .pure trivial
  exact hsig.bind fun sig _ => .pure rfl

theorem methodHeads : ∀ ms : List Source.Method,
    Source.Met (ms.all (·.head.meets (.apart avoided))) →
    ∀ x ∈ Checker.methodHeads ms, x.Reads env (· ∉ avoided) fun _ => True
  | [], _, _, hx => absurd hx List.not_mem_nil
  | ⟨_, _, span⟩ :: ms, h, x, hx => by
      rcases List.mem_cons.mp hx with rfl | hx
      · exact (head h.left span.line).mono fun _ _ => trivial
      · exact methodHeads ms h.right x hx

theorem requirements : ∀ rs : List Source.Requirement,
    Source.Met (rs.all (·.head.meets (.apart avoided))) →
    (CheckM.collect (Checker.requirements rs)).Reads env (· ∉ avoided) fun fs =>
      fs.map NamedFunction.name = rs.map (·.head.name.name)
  | [], _ => .pure rfl
  | ⟨_, span⟩ :: rs, h => by
      refine (head h.left span.line).bind fun f hf => (requirements rs h.right).bind fun fs hfs =>
        .pure ?_
      rw [List.map_cons, List.map_cons, hf, hfs]

theorem implemented {name : Ident}
    (h : Source.Met ((Source.Condition.apart avoided).name name.name)) :
    (CheckM.implemented name).Reads env (· ∉ avoided) fun _ => True := by
  have hname : name.name ∉ avoided := by simpa [Source.Condition.apart, Source.Met] using h
  refine (valueOf hname _).bind fun ty _ => ?_
  cases ty with
  | interfaceTy i => exact .pure trivial
  | _ => exact .fail _ _

theorem classOf {d : Source.ClassDecl} {span : Span}
    (h : Source.Met (Source.Stmt.headMeets (.apart avoided) ⟨.classDecl d, span⟩)) :
    (Checker.classOf d).Reads env (· ∉ avoided) fun _ => True := by
  rcases d with ⟨name, visibility, ps, ms, implements⟩
  refine (Reads.collect (params ps h.left.left)).bind fun params _ =>
    (Reads.collect (methodHeads ms h.left.right)).bind fun methods _ =>
    (Reads.collect (P := fun _ => True) fun x hx => ?_).bind fun implements _ => .pure trivial
  rcases List.mem_map.mp hx with ⟨i, hi, rfl⟩
  exact implemented (List.all_eq_true.mp h.right i hi)

theorem interfaceOf {d : Source.InterfaceDecl} {span : Span}
    (h : Source.Met (Source.Stmt.headMeets (.apart avoided) ⟨.interfaceDecl d, span⟩)) :
    (Checker.interfaceOf d).Reads env (· ∉ avoided) fun i =>
      (interfaceBindings i).map Prod.fst = Source.Stmt.declares ⟨.interfaceDecl d, span⟩ := by
  rcases d with ⟨name, visibility, rs⟩
  refine (requirements rs h).bind fun fs hfs => .pure ?_
  show name.name :: (fs.map fun f => (f.name, Ty.named f)).map Prod.fst = name.name :: _
  rw [List.map_map]
  exact congrArg (name.name :: ·) hfs

end CheckM.Reads

/-!
# Declarations exchanged
-/

theorem Dict.insert_insert_self (d : Dict α) (name : String) (x y : α) :
    (d.insert name x).insert name y = d.insert name y := by
  apply Dict.ext_get?
  intro other
  simp only [Dict.get?_insert]
  split <;> rfl

theorem Scopes.bind_comm (s : Scopes) {a b : String} (x y : Ty) (h : a ≠ b) :
    (s.bind a x).bind b y = (s.bind b y).bind a x := by
  rcases s with ⟨nested, root⟩
  cases nested with
  | nil => exact congrArg (Scopes.mk []) (Dict.insert_insert_of_ne root x y h)
  | cons scope outer =>
      exact congrArg (fun scope => Scopes.mk (scope :: outer) root)
        (Dict.insert_insert_of_ne scope x y h)

namespace SymbolTable

theorem bind_comm (t : SymbolTable) (space : String) {a b : String} (x y : Ty) (h : a ≠ b) :
    (t.bind space a x).bind space b y = (t.bind space b y).bind space a x := by
  have htwice : ∀ c z c' z', (t.bind space c z).bind space c' z' =
      t.setScopes space (((t.scopesOf space).bind c z).bind c' z') := by
    intro c z c' z'
    unfold bind
    rw [scopesOf_setScopes_self]
    unfold setScopes
    rw [Dict.insert_insert_self]
  rw [htwice, htwice, Scopes.bind_comm _ x y h]

def bindAll (t : SymbolTable) (space : String) (bs : List (String × Ty)) : SymbolTable :=
  bs.foldl (fun t b => t.bind space b.1 b.2) t

theorem bindAll_comm (t : SymbolTable) (space : String) {bs cs : List (String × Ty)}
    (h : ∀ b ∈ bs, ∀ c ∈ cs, b.1 ≠ c.1) :
    (t.bindAll space bs).bindAll space cs = (t.bindAll space cs).bindAll space bs := by
  have hone : ∀ {b : String × Ty}, (∀ c ∈ cs, b.1 ≠ c.1) → ∀ t : SymbolTable,
      (t.bind space b.1 b.2).bindAll space cs = (t.bindAll space cs).bind space b.1 b.2 := by
    intro b hb
    induction cs with
    | nil => exact fun _ => rfl
    | cons c cs ih =>
        rcases List.forall_mem_cons.mp hb with ⟨hc, hcs⟩
        intro t
        show ((t.bind space b.1 b.2).bind space c.1 c.2).bindAll space cs = _
        rw [t.bind_comm space _ _ hc]
        exact ih (fun b' hb' c' hc' => h b' hb' c' (List.mem_cons_of_mem _ hc')) hcs _
  induction bs generalizing t with
  | nil => rfl
  | cons b bs ih =>
      rcases List.forall_mem_cons.mp h with ⟨hb, hbs⟩
      show ((t.bind space b.1 b.2).bindAll space bs).bindAll space cs = _
      rw [ih _ hbs, hone hb]
      rfl

end SymbolTable

theorem CheckM.declareAll_apply (bs : List (String × Ty)) (env : Env) (s : State) :
    declareAll bs env s = (.ok (), onSymbols (·.bindAll env.space bs) s) := by
  induction bs generalizing s with
  | nil => rfl
  | cons b bs ih =>
      show (declare b.1 b.2 >>= fun _ => declareAll bs) env s = _
      exact (bind_apply_of_ok rfl).trans (ih _)

theorem Env.find?_bind (env : Env) (t : SymbolTable) {name other : String} (ty : Ty)
    (h : other ≠ name) : env.find? (t.bind env.space name ty) other = env.find? t other := by
  have hlookup : ∀ space, (t.bind env.space name ty).lookup? space other =
      t.lookup? space other := by
    intro space
    by_cases hspace : space = env.space
    · subst hspace
      rw [SymbolTable.lookup?_eq_scopesOf, SymbolTable.lookup?_eq_scopesOf, SymbolTable.bind,
        SymbolTable.scopesOf_setScopes_self]
      exact Scopes.lookup?_bind_of_ne _ ty h
    · exact t.lookup?_bind_of_ne_space _ _ ty hspace
  unfold Env.find?
  rw [hlookup, hlookup]

theorem Env.Agree.bindAll {env : Env} {names : String → Prop} {bs : List (String × Ty)}
    (h : ∀ b ∈ bs, ¬names b.1) (s : State) :
    env.Agree names s (onSymbols (·.bindAll env.space bs) s) := by
  induction bs generalizing s with
  | nil => exact .refl s
  | cons b bs ih =>
      rcases List.forall_mem_cons.mp h with ⟨hb, hbs⟩
      have hone : env.Agree names s (onSymbols (·.bind env.space b.1 b.2) s) := by
        refine ⟨fun {name} hname => env.find?_bind _ _ ?_, fun _ => rfl⟩
        rintro rfl
        exact hb hname
      exact hone.trans (ih hbs _)

def CheckM.Declares (env : Env) (own other : List String) (x : CheckM α) : Prop :=
  ∀ (s t : State) (a : α), x env s = (.ok a, t) → ∃ bs : List (String × Ty),
    (∀ b ∈ bs, b.1 ∈ own) ∧ ∀ u, env.Agree (· ∉ other) s u →
      x env u = (.ok a, onSymbols (·.bindAll env.space bs) u)

namespace CheckM.Declares

variable {env : Env} {own other : List String}

theorem of_reads {header : CheckM β} {bindings : β → List (String × Ty)} {item : β → α}
    (h : header.Reads env (· ∉ other) fun b => ∀ pair ∈ bindings b, pair.1 ∈ own) :
    (do let b ← header
        declareAll (bindings b)
        pure (item b)).Declares env own other := by
  intro s t a hrun
  rcases bind_apply_eq_ok.mp hrun with ⟨b, s', hheader, hrest⟩
  rcases bind_apply_eq_ok.mp hrest with ⟨_, t', hdeclare, hpure⟩
  cases hpure
  rcases h s s (.refl s) with ⟨r, hs, _, hr⟩
  rw [hs] at hheader
  cases hheader
  refine ⟨bindings b, hr b rfl, fun u hagree => ?_⟩
  rcases h s u hagree with ⟨r', hs', hu, _⟩
  rw [hs] at hs'
  cases hs'
  rw [bind_apply_of_ok hu, bind_apply_of_ok (declareAll_apply _ _ _)]
  rfl

theorem exchange {x y : CheckM α} (hx : x.Declares env own other) (hy : y.Declares env other own)
    (hdisjoint : ∀ name ∈ own, name ∉ other) {s t u : State} {a b : α}
    (hfirst : x env s = (.ok a, t)) (hsecond : y env t = (.ok b, u)) :
    ∃ v, y env s = (.ok b, v) ∧ x env v = (.ok a, u) := by
  rcases hx s t a hfirst with ⟨bs, hbs, hx⟩
  rcases hy t u b hsecond with ⟨cs, hcs, hy⟩
  have ht : t = onSymbols (·.bindAll env.space bs) s := by
    have hsame := hx s (.refl s)
    rw [hfirst] at hsame
    cases hsame
    rfl
  have hu : u = onSymbols (·.bindAll env.space cs) t := by
    have hsame := hy t (.refl t)
    rw [hsecond] at hsame
    cases hsame
    rfl
  subst ht hu
  refine ⟨_, hy s (Env.Agree.bindAll (fun b hb hname => hname (hbs b hb)) s).symm, ?_⟩
  rw [hx _ (Env.Agree.bindAll (fun c hc hname => hname (hcs c hc)) s)]
  unfold onSymbols
  dsimp only
  rw [SymbolTable.bindAll_comm]
  intro c hc b hb heq
  exact hdisjoint b.1 (hbs b hb) (heq ▸ hcs c hc)

end CheckM.Declares

theorem Checker.classPhase_declares {env : Env} {other : List String} {d : Source.ClassDecl}
    {span : Span} (h : Source.Met (Source.Stmt.headMeets (.apart other) ⟨.classDecl d, span⟩))
    {x : CheckM Item} (hx : classPhase ⟨.classDecl d, span⟩ = some x) :
    x.Declares env (Source.Stmt.declares ⟨.classDecl d, span⟩) other := by
  cases hx
  have hreads : (classOf d).Reads env (· ∉ other) fun c =>
      ∀ b ∈ [(d.name.name, Ty.classTy c)], b.1 ∈ Source.Stmt.declares ⟨.classDecl d, span⟩ :=
    (Reads.classOf h).mono fun c _ => List.forall_mem_singleton.mpr List.mem_cons_self
  exact Declares.of_reads hreads

theorem Checker.functionPhase_declares {env : Env} {other : List String} {h : Source.Head}
    {body : Source.Block} {span : Span} (hhead : Source.Met (h.meets (.apart other)))
    {x : CheckM Item} (hx : functionPhase ⟨.function h body, span⟩ = some x) :
    x.Declares env (Source.Stmt.declares ⟨.function h body, span⟩) other := by
  cases hx
  have hreads : (head h span.line).Reads env (· ∉ other) fun f =>
      ∀ b ∈ [(h.name.name, Ty.named f)], b.1 ∈ Source.Stmt.declares ⟨.function h body, span⟩ :=
    (Reads.head hhead span.line).mono fun f _ =>
      List.forall_mem_singleton.mpr List.mem_cons_self
  exact Declares.of_reads hreads

theorem Checker.interfacePhase_declares {env : Env} {other : List String} {d : Source.InterfaceDecl}
    {span : Span} (h : Source.Met (Source.Stmt.headMeets (.apart other) ⟨.interfaceDecl d, span⟩))
    {x : CheckM Item} (hx : interfacePhase ⟨.interfaceDecl d, span⟩ = some x) :
    x.Declares env (Source.Stmt.declares ⟨.interfaceDecl d, span⟩) other := by
  cases hx
  have hreads : (interfaceOf d).Reads env (· ∉ other) fun i =>
      ∀ b ∈ interfaceBindings i, b.1 ∈ Source.Stmt.declares ⟨.interfaceDecl d, span⟩ :=
    (Reads.interfaceOf h).mono fun i hi b hb => hi ▸ List.mem_map_of_mem hb
  rw [← bind_pure_comp, CheckM.interfaceDecl, bind_assoc]
  simp only [bind_assoc, pure_bind]
  exact Declares.of_reads hreads

end StaticTyping
