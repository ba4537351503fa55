import Mathlib.Logic.Relation
import StaticTyping.Proofs.Methods
import StaticTyping.Proofs.Stillness

/-!
# The members of imported classes

A member of a class is looked up in the form in which the module knows the class, and the module
knows a class by its name alone.  A class that comes from a package so has its own members wherever
the module does not bind its name to another class of that name.  Functions, interfaces and values
of other types may have the name.

This is shown of every expression in every state, and then of every place of every file that is
checked without a fault: the scopes that a place is judged in bind what the file was met with and
what the nodes around the place bind.
-/

namespace StaticTyping

def ClassTy.HiddenBy (c : ClassTy) (b : String × Ty) : Prop :=
  b.1 = c.name ∧ ∃ d, b.2 = .classTy d ∧ d.name = c.name ∧ d ≠ c

namespace Scopes

variable {s : Scopes} {c : ClassTy}

/-- Another class of the same name is found in the place of a class. -/
def Hides (s : Scopes) (c : ClassTy) : Prop :=
  ∃ d, s.lookup? c.name = some (.classTy d) ∧ d.name = c.name ∧ d ≠ c

theorem currentClass_of_not_hides (h : ¬s.Hides c) : s.currentClass c = c := by
  unfold currentClass
  split
  next d hlookup =>
    split
    next hname =>
      by_contra hne
      exact h ⟨d, hlookup, hname, hne⟩
    next => rfl
  next => rfl

theorem Hides.of_bind {name : String} {ty : Ty} (hty : ¬c.HiddenBy (name, ty))
    (h : (s.bind name ty).Hides c) : s.Hides c := by
  rcases h with ⟨d, hlookup, hname, hne⟩
  by_cases hsame : name = c.name
  · subst hsame
    rw [lookup?_bind_self] at hlookup
    exact absurd ⟨rfl, d, Option.some.inj hlookup, hname, hne⟩ hty
  · rw [lookup?_bind_of_ne _ _ (Ne.symm hsame)] at hlookup
    exact ⟨d, hlookup, hname, hne⟩

theorem Hides.of_bindAll {bindings : List (String × Ty)} (hbindings : ∀ b ∈ bindings, ¬c.HiddenBy b)
    (h : (s.bindAll bindings).Hides c) : s.Hides c := by
  induction bindings generalizing s with
  | nil => exact h
  | cons b bindings ih =>
      rcases List.forall_mem_cons.mp hbindings with ⟨hb, hrest⟩
      exact (ih hrest h).of_bind hb

end Scopes

/-!
# Reading a member
-/

namespace Checker

open CheckM

variable {env : Env} {s s' : State} {e : Source.Expr} {object : Typed.Expr} {c : ClassTy}

/-- What reading a member of a class comes to: the member of that name, or a fault. -/
def readOf (object : Typed.Expr) (c : ClassTy) (name : Ident) (span : Span) :
    Except Fault Typed.Expr :=
  match c.member? name.name with
  | some ty => .ok ⟨.get object name .field, ty, span⟩
  | none => .error ⟨.noAttribute c.name name.name, name.line⟩

theorem getExpr_class {check : CheckM Member} {x : Ident} {t : State}
    (hcheck : check env t = valueMember object x env s) (hobject : object.ty = .classTy c)
    (hown : env.currentClass s.session.symbols c = c) (span : Span) :
    getExpr check x span env t = (readOf object c x span, s) := by
  have hmissing : missing object x = .noAttribute c.name x.name := by
    unfold missing
    rw [hobject]
    rfl
  have hclass : currentClass c env s = (.ok c, s) := by
    show (Except.ok (env.currentClass s.session.symbols c), s) = _
    rw [hown]
  unfold valueMember at hcheck
  rw [hobject] at hcheck
  dsimp only at hcheck
  rw [bind_apply_of_ok hclass, hmissing] at hcheck
  unfold getExpr readOf
  cases hmember : c.member? x.name with
  | none =>
      rw [hmember] at hcheck
      exact bind_apply_of_error hcheck
  | some ty =>
      rw [hmember] at hcheck
      exact bind_apply_of_ok hcheck

theorem expr_get_class (hload : env.load.Releases) (hcheck : expr e env s = (.ok object, s'))
    (hobject : object.ty = .classTy c)
    (hname : ∀ var, e.kind = .var var → env.imported? s.session.symbols var.name = none)
    (hshown : ¬(s.scopes env).Hides c) (x : Ident) (span : Span) :
    expr ⟨.get e x, span⟩ env s = (readOf object c x span, s') := by
  have hlevel : s'.exprs = s.exprs := by
    have h := (expr_standalone env e).level s
    rw [hcheck] at h
    exact h
  have hscopes : s'.scopes env = s.scopes env := by
    have h : ((expr e env s).2).scopes env = s.scopes env := Stillness.expr hload e s
    rw [hcheck] at h
    exact h
  have hown : env.currentClass s'.session.symbols c = c := by
    rw [Env.currentClass_eq]
    show (s'.scopes env).currentClass c = c
    rw [hscopes]
    exact Scopes.currentClass_of_not_hides hshown
  -- the object is checked one expression deeper, where it comes to the same
  have hmember : member e (expr e) x env { s with exprs := s.exprs.push .other } =
      valueMember object x env { s' with exprs := s.exprs.push .other } :=
    (member_value { s with exprs := s.exprs.push .other } (expr e) x hname).trans
      (bind_apply_of_ok (expr_moved hcheck _))
  have hrun : expr ⟨.get e x, span⟩ env s =
      (readOf object c x span, { s' with exprs := s.exprs }) :=
    inExpr_apply (getExpr_class hmember hobject hown span)
  rw [hrun, ← hlevel]

end Checker

/-!
# The nodes of a typed tree
-/

def Param.defaults (ps : List Param) : List Typed.Expr :=
  ps.filterMap Param.default

def NamedFunction.defaults (fs : List NamedFunction) : List Typed.Expr :=
  fs.flatMap fun f => Param.defaults f.sig.params

namespace Typed

/-- A node of a typed tree. -/
inductive Node where
  | expr (e : Expr)
  | stmt (s : Stmt)

namespace ExprKind

def operands : ExprKind → List Expr
  | .list items => items
  | .map entries => entries.flatMap fun e => [e.key, e.value]
  | .assign _ value => [value]
  | .increment e | .decrement e | .unary _ e | .group e | .is e _ | .call e _ | .get e _ _ => [e]
  | .binary left _ right | .logical left _ right => [left, right]
  | .set object _ value => [object, value]
  | .index object key => [object, key]
  | .slice object lower upper => [object, lower, upper]
  | .cond condition _ otherwise => condition :: otherwise.toList
  | .lambda params _ _ => Param.defaults params
  | _ => []

def body : ExprKind → List Stmt
  | .block body | .cond _ body _ | .lambda _ _ body => body.stmts
  | _ => []

def call? : ExprKind → Option (Expr × List Expr)
  | .call callee args => some (callee, args)
  | _ => none

def binds : ExprKind → List (String × Ty)
  | .lambda params _ _ => Param.bindings params
  | _ => []

end ExprKind

namespace StmtKind

def operands : StmtKind → List Expr
  | .defer e _ | .expr e | .forEach _ e _ | .whileLoop e _ | .binding _ _ _ _ e | .yield e => [e]
  | .forLoop _ condition increment _ => condition.toList ++ increment.toList
  | .function f => Param.defaults f.sig.sig.params
  | .ret value => value.toList
  | .classDecl _ c _ => Param.defaults c.params ++ NamedFunction.defaults c.methods
  | .interfaceDecl i => NamedFunction.defaults i.methods
  | _ => []

def body : StmtKind → List Stmt
  | .forLoop init _ _ body => init.toList ++ body
  | .forEach _ _ body | .whileLoop _ body => body
  | .function f => f.body.stmts
  | .classDecl _ _ methods => methods.flatMap fun f => f.body.stmts
  | _ => []

def call? : StmtKind → Option (Expr × List Expr)
  | .defer callee args => some (callee, args)
  | _ => none

def binds : StmtKind → List (String × Ty)
  | .forEach name iterable _ => iterable.ty.element?.toList.map fun ty => (name.name, ty)
  | .function f => (f.name.name, .named f.sig) :: Param.bindings f.sig.sig.params
  | .binding name _ _ ty _ => [(name.name, ty)]
  | .classDecl name c methods =>
      (name.name, .classTy (.forward name.name c.visibility)) :: (name.name, .classTy c) ::
        methods.flatMap fun f => Param.bindings f.sig.sig.params
  | .interfaceDecl i => i.bindings
  | _ => []

end StmtKind

namespace Node

def operands : Node → List Expr
  | .expr e => e.kind.operands
  | .stmt s => s.kind.operands

def body : Node → List Stmt
  | .expr e => e.kind.body
  | .stmt s => s.kind.body

def call? : Node → Option (Expr × List Expr)
  | .expr e => e.kind.call?
  | .stmt s => s.kind.call?

def binds : Node → List (String × Ty)
  | .expr e => e.kind.binds
  | .stmt s => s.kind.binds

inductive Part (n : Node) : Node → Prop where
  | operand {e} : e ∈ n.operands → Part n (.expr e)
  | body {s} : s ∈ n.body → Part n (.stmt s)
  | argument {callee args arg} : n.call? = some (callee, args) → arg ∈ args →
      (∀ sig, callee.ty.callSignature? = some sig → ∀ p ∈ sig.params, p.default ≠ some arg) →
      Part n (.expr arg)

/-- A node binds the name of a class to another class of that name. -/
def Hides (n : Node) (c : ClassTy) : Prop :=
  ∃ b ∈ n.binds, c.HiddenBy b

def Shows (n : Node) (c : ClassTy) : Prop :=
  ∀ m, Relation.ReflTransGen Part n m → ¬m.Hides c

section

variable {n : Node} {c : ClassTy}

theorem not_hiddenBy (h : ¬n.Hides c) : ∀ b ∈ n.binds, ¬c.HiddenBy b :=
  fun b hb hhidden => h ⟨b, hb, hhidden⟩

theorem not_hides_of_names (h : ∀ b ∈ n.binds, b.1 ≠ c.name) : ¬n.Hides c :=
  fun ⟨b, hb, hname, _⟩ => h b hb hname

theorem not_hides_interface (i : InterfaceTy) (span : Span) :
    ¬(stmt ⟨.interfaceDecl i, span⟩).Hides c := by
  rintro ⟨b, hb, _, d, hd, _⟩
  rcases List.mem_cons.mp hb with rfl | hb
  · cases hd
  · rcases List.mem_map.mp hb with ⟨f, _, rfl⟩
    cases hd

theorem Shows.not_hides (h : n.Shows c) : ¬n.Hides c :=
  h n .refl

theorem Shows.part (h : n.Shows c) {m : Node} (hm : n.Part m) : m.Shows c :=
  fun k hk => h k (.head hm hk)

theorem Shows.of_parts (hn : ¬n.Hides c) (hcall : n.call? = none)
    (hoperands : ∀ e ∈ n.operands, (expr e).Shows c) (hbody : ∀ s ∈ n.body, (stmt s).Shows c) :
    n.Shows c := by
  intro m hm
  rcases hm.cases_head with rfl | ⟨k, hk, hinner⟩
  · exact hn
  · cases hk with
    | operand he => exact hoperands _ he m hinner
    | body hs => exact hbody _ hs m hinner
    | argument h => cases hcall.symm.trans h

theorem Shows.of_leaf (hn : ¬n.Hides c) (hcall : n.call? = none) (hoperands : n.operands = [])
    (hbody : n.body = []) : n.Shows c := by
  refine of_parts hn hcall ?_ ?_
  · rw [hoperands]
    exact List.forall_mem_nil _
  · rw [hbody]
    exact List.forall_mem_nil _

end

end Node

/-- A node stands somewhere in a file. -/
def File.Holds (f : File) (n : Node) : Prop :=
  ∃ s ∈ f.stmts, Relation.ReflTransGen Node.Part (.stmt s) n

end Typed

/-!
# Contexts in which a class is not hidden
-/

structure Context.Exposes (Γ : Context) (c : ClassTy) : Prop where
  scopes : ¬Γ.scopes.Hides c
  apart : ¬Γ.shared

namespace Context.Exposes

variable {Γ Γ' : Context} {c : ClassTy}

theorem push (h : Γ.Exposes c) : Γ.push.Exposes c :=
  ⟨h.scopes, h.apart⟩

theorem inClass (h : Γ.Exposes c) (d : ClassTy) : (Γ.inClass d).Exposes c :=
  ⟨h.scopes, h.apart⟩

theorem bind (h : Γ.Exposes c) {name : String} {ty : Ty} (hty : ¬c.HiddenBy (name, ty)) :
    (Γ.bind name ty).Exposes c :=
  ⟨fun hides => h.scopes (hides.of_bind hty), h.apart⟩

theorem bindAll (h : Γ.Exposes c) {bindings : List (String × Ty)}
    (hbindings : ∀ b ∈ bindings, ¬c.HiddenBy b) : (Γ.bindAll bindings).Exposes c :=
  ⟨fun hides => h.scopes (hides.of_bindAll hbindings), h.apart⟩

theorem imports (h : Γ.Exposes c) (himports : Γ.Imports Γ') : Γ'.Exposes c := by
  rw [himports.2.2.2 h.apart]
  exact h

end Context.Exposes

namespace Typed

variable {D : Discipline} {c : ClassTy} {Γ Γ' : Context}

inductive Node.Judged (D : Discipline) (c : ClassTy) : Node → Prop where
  | expr {Γ e} : Γ.Exposes c → e.WellTyped D Γ → Node.Judged D c (.expr e)
  | stmt {Γ Γ' s} : Γ.Exposes c → s.kind.WellTyped D Γ Γ' → Node.Judged D c (.stmt s)

/-!
# From a node to its parts
-/

theorem defaults_wellTyped {ps : List Param} (h : ∀ p ∈ ps, p.WellFormed D Γ) :
    ∀ e ∈ Param.defaults ps, e.WellTyped D Γ := by
  intro e he
  rcases List.mem_filterMap.mp he with ⟨p, hp, hdefault⟩
  cases h p hp with
  | intro _ hwell _ => exact hwell e hdefault

theorem signature_defaults_wellTyped {sig : Signature} (h : sig.WellFormed D Γ) :
    ∀ e ∈ Param.defaults sig.params, e.WellTyped D Γ := by
  cases h with
  | intro hparams _ _ => exact defaults_wellTyped hparams

theorem methods_defaults_wellTyped {fs : List NamedFunction}
    (h : ∀ f ∈ fs, f.sig.WellFormed D Γ) : ∀ e ∈ NamedFunction.defaults fs, e.WellTyped D Γ := by
  intro e he
  rcases List.mem_flatMap.mp he with ⟨f, hf, hdefault⟩
  exact signature_defaults_wellTyped (h f hf) e hdefault

theorem class_defaults_wellTyped {d : ClassTy} (h : d.WellFormed D Γ) :
    ∀ e ∈ Param.defaults d.params ++ NamedFunction.defaults d.methods, e.WellTyped D Γ := by
  cases h with
  | intro hparams _ hmethods _ =>
      exact List.forall_mem_append.mpr
        ⟨defaults_wellTyped hparams, methods_defaults_wellTyped hmethods⟩

theorem Expr.Expects.mem {callee : Expr} {sig expected : Signature}
    (h : callee.Expects sig expected) {p : Param} (hp : p ∈ expected.params) : p ∈ sig.params := by
  cases h with
  | plain _ => exact hp
  | method _ => exact List.mem_cons_of_mem _ hp

theorem exists_mem_zip {α β : Type} {as : List α} {bs : List β} (h : bs.length = as.length) {b : β}
    (hb : b ∈ bs) : ∃ a, (a, b) ∈ as.zip bs := by
  have hmap : b ∈ (as.zip bs).map Prod.snd := by
    rw [List.map_snd_zip (Nat.le_of_eq h)]
    exact hb
  rcases List.mem_map.mp hmap with ⟨⟨a, _⟩, hpair, rfl⟩
  exact ⟨a, hpair⟩

theorem Expr.Calls.given (hD : D.ordered) {callee arg : Expr} {args : List Expr} {ty : Ty}
    (h : callee.Calls D Γ args ty) (harg : arg ∈ args)
    (hgiven : ∀ sig, callee.ty.callSignature? = some sig →
      ∀ p ∈ sig.params, p.default ≠ some arg) : arg.WellTyped D Γ := by
  cases h with
  | intro _ hsig hexpects _ hlength hfills =>
      rcases exists_mem_zip (hlength hD) harg with ⟨p, hpair⟩
      cases hfills hD _ hpair with
      | given hwell _ => exact hwell
      | default hdefault _ _ =>
          have hp := hexpects.mem (List.of_mem_zip hpair).1
          exact absurd hdefault (hgiven _ hsig p hp)

theorem Expr.Calls.callee {callee : Expr} {args : List Expr} {ty : Ty}
    (h : callee.Calls D Γ args ty) : callee.WellTyped D Γ := by
  cases h with
  | intro hcallee _ _ _ _ _ => exact hcallee

theorem forall_mem_pair {α : Type} {P : α → Prop} {a b : α} (ha : P a) (hb : P b) :
    ∀ x ∈ [a, b], P x :=
  List.forall_mem_cons.mpr ⟨ha, List.forall_mem_singleton.mpr hb⟩

theorem ExprKind.HasType.operands {kind : ExprKind} {ty : Ty} (h : kind.HasType D Γ ty) :
    ∀ e ∈ kind.operands, e.WellTyped D Γ := by
  cases h with
  | list hitems _ => exact hitems
  | map hkeys hvalues _ _ =>
      intro e he
      rcases List.mem_flatMap.mp he with ⟨entry, hentry, he⟩
      exact forall_mem_pair (hkeys entry hentry) (hvalues entry hentry) e he
  | assign he | increment he _ | decrement he _ | neg he _ | not he _ | group he | is he _
  | get he _ =>
      exact List.forall_mem_singleton.mpr he
  | binary hleft hright _ | logical hleft hright _ => exact forall_mem_pair hleft hright
  | call hcall => exact List.forall_mem_singleton.mpr hcall.callee
  | set hobject _ hvalue _ => exact forall_mem_pair hobject hvalue
  | index hobject _ hindex _ => exact forall_mem_pair hobject hindex
  | slice hobject _ hlower hupper _ _ =>
      exact List.forall_mem_cons.mpr ⟨hobject, forall_mem_pair hlower hupper⟩
  | cond hcondition _ _ helse _ =>
      exact List.forall_mem_cons.mpr
        ⟨hcondition, fun e he => helse e (Option.mem_toList.mp he)⟩
  | lambda hsig _ _ => exact signature_defaults_wellTyped hsig
  | int | float | string | char | bool | nil | var | this | block =>
      exact fun _ he => absurd he List.not_mem_nil

theorem ExprKind.HasType.calls {kind : ExprKind} {ty : Ty} (h : kind.HasType D Γ ty)
    {callee : Expr} {args : List Expr} (hcall : kind.call? = some (callee, args)) :
    ∃ ty, callee.Calls D Γ args ty := by
  cases h with
  | call hcalls =>
      cases hcall
      exact ⟨_, hcalls⟩
  | _ => cases hcall

theorem StmtKind.WellTyped.calls {kind : StmtKind} (h : kind.WellTyped D Γ Γ')
    {callee : Expr} {args : List Expr} (hcall : kind.call? = some (callee, args)) :
    ∃ ty, callee.Calls D Γ args ty := by
  cases h with
  | defer hcalls =>
      cases hcall
      exact ⟨_, hcalls⟩
  | _ => cases hcall

theorem Block.WellTyped.stmts {b : Block} (h : b.WellTyped D Γ) :
    ∃ Γ', Stmt.AllWellTyped D Γ.push b.stmts Γ' := by
  cases h with
  | intro hstmts _ _ => exact ⟨_, hstmts⟩

theorem ExprKind.HasType.body {kind : ExprKind} {ty : Ty} (h : kind.HasType D Γ ty)
    (hΓ : Γ.Exposes c) (hbinds : ∀ b ∈ kind.binds, ¬c.HiddenBy b) :
    ∃ Δ Δ', Δ.Exposes c ∧ Stmt.AllWellTyped D Δ kind.body Δ' := by
  cases h with
  | block hbody =>
      rcases hbody.stmts with ⟨Δ', hstmts⟩
      exact ⟨_, Δ', hΓ.push, hstmts⟩
  | cond _ _ hthen _ _ =>
      rcases hthen.stmts with ⟨Δ', hstmts⟩
      exact ⟨_, Δ', hΓ.push, hstmts⟩
  | lambda _ hbody _ =>
      rcases hbody.stmts with ⟨Δ', hstmts⟩
      exact ⟨_, Δ', (hΓ.push.bindAll hbinds).push, hstmts⟩
  | _ => exact ⟨Γ, Γ, hΓ, .nil⟩

theorem StmtKind.WellTyped.exposes {kind : StmtKind} (h : kind.WellTyped D Γ Γ')
    (hΓ : Γ.Exposes c) (hbinds : ∀ b ∈ kind.binds, ¬c.HiddenBy b) : Γ'.Exposes c := by
  cases h with
  | function _ _ => exact hΓ.bind (hbinds _ (.head _))
  | binding _ _ _ _ => exact hΓ.bind (hbinds _ (.head _))
  | classDecl _ _ => exact hΓ.bind (hbinds _ (.tail _ (.head _)))
  | interfaceDecl _ => exact hΓ.bindAll hbinds
  | importOne himports | importMany himports => exact hΓ.imports himports
  | _ => exact hΓ

theorem exposes_along {step : Context → Stmt → Context → Prop}
    {all : Context → List Stmt → Context → Prop} (hnil : ∀ {Γ Γ'}, all Γ [] Γ' → Γ' = Γ)
    (hcons : ∀ {Γ s ss Γ''}, all Γ (s :: ss) Γ'' → ∃ Γ', step Γ s Γ' ∧ all Γ' ss Γ'')
    (hstep : ∀ {Γ s Γ'}, step Γ s Γ' → Γ.Exposes c → ¬(Node.stmt s).Hides c → Γ'.Exposes c)
    {ss : List Stmt} (h : all Γ ss Γ') (hΓ : Γ.Exposes c)
    (hss : ∀ s ∈ ss, ¬(Node.stmt s).Hides c) :
    Γ'.Exposes c ∧ ∀ s ∈ ss, ∃ Δ Δ', Δ.Exposes c ∧ step Δ s Δ' := by
  induction ss generalizing Γ with
  | nil => exact ⟨hnil h ▸ hΓ, fun s hs => absurd hs List.not_mem_nil⟩
  | cons s ss ih =>
      rcases hcons h with ⟨Δ, hs, hrest⟩
      rcases List.forall_mem_cons.mp hss with ⟨hshown, hss⟩
      rcases ih hrest (hstep hs hΓ hshown) hss with ⟨hend, hmem⟩
      exact ⟨hend, List.forall_mem_cons.mpr ⟨⟨Γ, Δ, hΓ, hs⟩, hmem⟩⟩

theorem Stmt.AllWellTyped.exposes {ss : List Stmt} (h : Stmt.AllWellTyped D Γ ss Γ')
    (hΓ : Γ.Exposes c) (hss : ∀ s ∈ ss, ¬(Node.stmt s).Hides c) :
    Γ'.Exposes c ∧ ∀ s ∈ ss, ∃ Δ Δ', Δ.Exposes c ∧ s.kind.WellTyped D Δ Δ' := by
  refine exposes_along ?_ ?_ ?_ h hΓ hss
  · intro Γ Γ' h
    cases h with
    | nil => rfl
  · intro Γ s ss Γ'' h
    cases h with
    | cons hs hrest => exact ⟨_, hs, hrest⟩
  · exact fun hs hΓ hshown => hs.exposes hΓ (Node.not_hiddenBy hshown)

theorem Stmt.AllWellTyped.judged {ss : List Stmt} (h : Stmt.AllWellTyped D Γ ss Γ')
    (hΓ : Γ.Exposes c) (hss : ∀ s ∈ ss, ¬(Node.stmt s).Hides c) :
    ∀ s ∈ ss, (Node.stmt s).Judged D c := by
  intro s hs
  rcases (h.exposes hΓ hss).2 s hs with ⟨_, _, hΔ, hwell⟩
  exact .stmt hΔ hwell

theorem Function.WellTyped.judged {f : Function} (h : f.WellTyped D Γ) (hΓ : Γ.Exposes c)
    (hparams : ∀ b ∈ Param.bindings f.sig.sig.params, ¬c.HiddenBy b)
    (hbody : ∀ s ∈ f.body.stmts, ¬(Node.stmt s).Hides c) :
    ∀ s ∈ f.body.stmts, (Node.stmt s).Judged D c := by
  cases h with
  | intro _ hblock _ =>
      rcases hblock.stmts with ⟨_, hstmts⟩
      exact hstmts.judged (hΓ.push.bindAll hparams).push hbody

theorem methods_judged {d : ClassTy} {methods : List Function} (h : d.Implemented D Γ methods)
    (hΓ : Γ.Exposes c)
    (hparams : ∀ b ∈ methods.flatMap fun f => Param.bindings f.sig.sig.params, ¬c.HiddenBy b)
    (hbody : ∀ s ∈ methods.flatMap fun f => f.body.stmts, ¬(Node.stmt s).Hides c) :
    ∀ s ∈ methods.flatMap fun f => f.body.stmts, (Node.stmt s).Judged D c := by
  intro s hs
  rcases List.mem_flatMap.mp hs with ⟨f, hf, hs⟩
  cases h with
  | intro _ _ hmethods _ =>
      refine (hmethods f hf).judged (hΓ.push.inClass d) ?_ ?_ s hs
      · exact fun b hb => hparams b (List.mem_flatMap.mpr ⟨f, hf, hb⟩)
      · exact fun s hs => hbody s (List.mem_flatMap.mpr ⟨f, hf, hs⟩)

theorem StmtKind.WellTyped.operands {kind : StmtKind} (h : kind.WellTyped D Γ Γ')
    (hΓ : Γ.Exposes c) (hbody : ∀ s ∈ kind.body, ¬(Node.stmt s).Hides c) :
    ∃ Δ, Δ.Exposes c ∧ ∀ e ∈ kind.operands, e.WellTyped D Δ := by
  cases h with
  | defer hcall => exact ⟨Γ, hΓ, List.forall_mem_singleton.mpr hcall.callee⟩
  | expr he | yield he => exact ⟨Γ, hΓ, List.forall_mem_singleton.mpr he⟩
  | binding _ he _ _ => exact ⟨Γ, hΓ, List.forall_mem_singleton.mpr he⟩
  | forEach he _ _ | whileLoop he _ _ => exact ⟨Γ.push, hΓ.push, List.forall_mem_singleton.mpr he⟩
  | forLoop hinit hcondition _ hincrement _ =>
      -- The head of the loop is judged after its first statement, which must not hide the class.
      have hinit' := hinit.exposes hΓ.push fun s hs => hbody s (List.mem_append_left _ hs)
      refine ⟨_, hinit'.1, List.forall_mem_append.mpr ⟨?_, ?_⟩⟩
      · exact fun e he => hcondition e (Option.mem_toList.mp he)
      · exact fun e he => hincrement e (Option.mem_toList.mp he)
  | function hsig _ => exact ⟨Γ, hΓ, signature_defaults_wellTyped hsig⟩
  | ret hvalue => exact ⟨Γ, hΓ, fun e he => hvalue e (Option.mem_toList.mp he)⟩
  | classDecl hclass _ => exact ⟨Γ, hΓ, class_defaults_wellTyped hclass⟩
  | interfaceDecl hinterface =>
      cases hinterface with
      | intro hmethods => exact ⟨Γ, hΓ, methods_defaults_wellTyped hmethods⟩
  | _ => exact ⟨Γ, hΓ, fun _ he => absurd he List.not_mem_nil⟩

theorem StmtKind.WellTyped.body {kind : StmtKind} (h : kind.WellTyped D Γ Γ')
    (hΓ : Γ.Exposes c) (hbinds : ∀ b ∈ kind.binds, ¬c.HiddenBy b)
    (hbody : ∀ s ∈ kind.body, ¬(Node.stmt s).Hides c) :
    ∀ s ∈ kind.body, (Node.stmt s).Judged D c := by
  cases h with
  | forLoop hinit _ _ _ hstmts =>
      rcases List.forall_mem_append.mp hbody with ⟨hfirst, hrest⟩
      exact List.forall_mem_append.mpr ⟨hinit.judged hΓ.push hfirst,
        hstmts.judged (hinit.exposes hΓ.push hfirst).1 hrest⟩
  | forEach _ helem hstmts =>
      have hloop := hΓ.push.bind (hbinds _ (List.mem_map_of_mem (Option.mem_toList.mpr helem)))
      exact hstmts.judged hloop hbody
  | whileLoop _ _ hstmts => exact hstmts.judged hΓ.push hbody
  | function _ hf =>
      rcases List.forall_mem_cons.mp hbinds with ⟨hname, hparams⟩
      exact hf.judged (hΓ.bind hname) hparams hbody
  | classDecl _ himplemented =>
      rcases List.forall_mem_cons.mp (List.forall_mem_cons.mp hbinds).2 with ⟨hname, hparams⟩
      exact methods_judged himplemented (hΓ.bind hname) hparams hbody
  | _ => exact fun _ hs => absurd hs List.not_mem_nil

theorem Node.Judged.part (hD : D.ordered) {n m : Node} (h : n.Judged D c) (hn : n.Shows c)
    (hm : n.Part m) : m.Judged D c := by
  have hbinds := not_hiddenBy hn.not_hides
  have hbody : ∀ s ∈ n.body, ¬(Node.stmt s).Hides c := fun s hs => (hn.part (.body hs)).not_hides
  cases h with
  | expr hΓ he =>
      cases he with
      | intro hkind _ =>
          cases hm with
          | operand he => exact .expr hΓ (hkind.operands _ he)
          | body hs =>
              rcases hkind.body hΓ hbinds with ⟨_, _, hΔ, hstmts⟩
              exact hstmts.judged hΔ hbody _ hs
          | argument hcall harg hgiven =>
              rcases hkind.calls hcall with ⟨_, hcalls⟩
              exact .expr hΓ (hcalls.given hD harg hgiven)
  | stmt hΓ hkind =>
      cases hm with
      | operand he =>
          rcases hkind.operands hΓ hbody with ⟨_, hΔ, hoperands⟩
          exact .expr hΔ (hoperands _ he)
      | body hs => exact hkind.body hΓ hbinds hbody _ hs
      | argument hcall harg hgiven =>
          rcases hkind.calls hcall with ⟨_, hcalls⟩
          exact .expr hΓ (hcalls.given hD harg hgiven)

theorem Node.Judged.within (hD : D.ordered) {n m : Node} (h : n.Judged D c) (hn : n.Shows c)
    (hm : Relation.ReflTransGen Part n m) : m.Judged D c := by
  induction hm using Relation.ReflTransGen.head_induction_on with
  | refl => exact h
  | head hpart _ ih => exact ih (h.part hD hn hpart) (hn.part hpart)

/-!
# Files
-/

theorem Stmt.not_hiddenBy_forward {s : Stmt} (h : ¬(Node.stmt s).Hides c) {b : String × Ty}
    (hb : s.forward? = some b) : ¬c.HiddenBy b := by
  rcases s with ⟨kind, span⟩
  cases kind with
  | classDecl name d methods =>
      cases hb
      exact Node.not_hiddenBy h _ (.head _)
  | interfaceDecl i =>
      cases hb
      rintro ⟨_, d, htype, _⟩
      cases htype
  | _ => cases hb

theorem Stmt.AllDeclared.exposes {ss : List Stmt} (h : Stmt.AllDeclared D Γ ss Γ')
    (hΓ : Γ.Exposes c) (hss : ∀ s ∈ ss, ¬(Node.stmt s).Hides c) :
    Γ'.Exposes c ∧ ∀ s ∈ ss, ∃ Δ Δ', Δ.Exposes c ∧ s.kind.Declared D Δ Δ' := by
  refine exposes_along ?_ ?_ ?_ h hΓ hss
  · intro Γ Γ' h
    cases h with
    | nil => rfl
  · intro Γ s ss Γ'' h
    cases h with
    | cons hs hrest => exact ⟨_, hs, hrest⟩
  · rintro Γ ⟨kind, span⟩ Γ' hs hΓ hshown
    cases hs with
    | classDecl _ => exact hΓ.bind (Node.not_hiddenBy hshown _ (.tail _ (.head _)))
    | function _ => exact hΓ.bind (Node.not_hiddenBy hshown _ (.head _))

theorem Stmt.AllFinished.exposes {ss : List Stmt} (h : Stmt.AllFinished D Γ ss Γ')
    (hΓ : Γ.Exposes c) (hss : ∀ s ∈ ss, ¬(Node.stmt s).Hides c) :
    Γ'.Exposes c ∧ ∀ s ∈ ss, ∃ Δ Δ', Δ.Exposes c ∧ s.Finished D Δ Δ' := by
  refine exposes_along ?_ ?_ ?_ h hΓ hss
  · intro Γ Γ' h
    cases h with
    | nil => rfl
  · intro Γ s ss Γ'' h
    cases h with
    | cons hs hrest => exact ⟨_, hs, hrest⟩
  · intro Γ s Γ' hs hΓ hshown
    cases hs with
    | function _ => exact hΓ.bind (Node.not_hiddenBy hshown _ (.head _))
    | classDecl _ => exact hΓ.bind (Node.not_hiddenBy hshown _ (.tail _ (.head _)))
    | declared _ => exact hΓ
    | other _ hkind => exact hkind.exposes hΓ (Node.not_hiddenBy hshown)

theorem Stmt.Finished.judged_part (hD : D.ordered) {s : Stmt} (h : s.Finished D Γ Γ')
    (hΓ : Γ.Exposes c)
    (hdeclared : s.declKind = .classes ∨ s.declKind = .functions →
      ∃ Δ Δ', Δ.Exposes c ∧ s.kind.Declared D Δ Δ')
    (hjudged : s.declKind = .imports ∨ s.declKind = .interfaces ∨ s.declKind = .values →
      (Node.stmt s).Judged D c)
    (hs : (Node.stmt s).Shows c) {m : Node} (hm : (Node.stmt s).Part m) : m.Judged D c := by
  have hbinds := Node.not_hiddenBy hs.not_hides
  have hbody : ∀ t ∈ (Node.stmt s).body, ¬(Node.stmt t).Hides c :=
    fun t ht => (hs.part (.body ht)).not_hides
  cases h with
  | function hf =>
      rcases List.forall_mem_cons.mp hbinds with ⟨hname, hparams⟩
      cases hm with
      | operand he =>
          -- defaults belong to the signature, and so to the context in which it was declared
          rcases hdeclared (.inr rfl) with ⟨_, _, hΔ, hhead⟩
          cases hhead with
          | function hsig => exact .expr hΔ (signature_defaults_wellTyped hsig _ he)
      | body ht => exact hf.judged (hΓ.bind hname) hparams hbody _ ht
      | argument hcall => cases hcall
  | classDecl himplemented =>
      rcases List.forall_mem_cons.mp (List.forall_mem_cons.mp hbinds).2 with ⟨hname, hparams⟩
      cases hm with
      | operand he =>
          rcases hdeclared (.inl rfl) with ⟨_, _, hΔ, hhead⟩
          cases hhead with
          | classDecl hclass => exact .expr hΔ (class_defaults_wellTyped hclass _ he)
      | body ht => exact methods_judged himplemented (hΓ.bind hname) hparams hbody _ ht
      | argument hcall => cases hcall
  | declared hkind => exact (hjudged hkind).part hD hs hm
  | other _ hkind => exact (Node.Judged.stmt hΓ hkind).part hD hs hm

theorem File.WellTyped.judged (hD : D.ordered) {f : File} (h : f.WellTyped D Γ) (hΓ : Γ.Exposes c)
    (hshown : ∀ s ∈ f.stmts, (Node.stmt s).Shows c) {e : Expr} (he : f.Holds (.expr e)) :
    (Node.expr e).Judged D c := by
  have hstmt : ∀ s ∈ f.stmts, ¬(Node.stmt s).Hides c := fun s hs => (hshown s hs).not_hides
  have hkinds : ∀ kind, ∀ s ∈ Stmt.ofKind kind f.stmts, ¬(Node.stmt s).Hides c :=
    fun kind s hs => hstmt s (List.mem_filter.mp hs).1
  have hforward : ∀ b ∈ f.stmts.filterMap Stmt.forward?, ¬c.HiddenBy b := by
    intro b hb
    rcases List.mem_filterMap.mp hb with ⟨s, hs, hb⟩
    exact s.not_hiddenBy_forward (hstmt s hs) hb
  rcases h with ⟨himports, hinterfaces, hclasses, hfunctions, hvalues, hfinished⟩
  -- Kind by kind, each context exposes the class, since the one before does.
  have hΓ₁ := (himports.exposes hΓ (hkinds _)).1.bindAll hforward
  have hΓ₂ := (hinterfaces.exposes hΓ₁ (hkinds _)).1
  rcases hclasses.exposes hΓ₂ (hkinds _) with ⟨hΓ₃, hclasses⟩
  rcases hfunctions.exposes hΓ₃ (hkinds _) with ⟨hΓ₄, hfunctions⟩
  have hΓ₅ := (hvalues.exposes hΓ₄ (hkinds _)).1
  rcases he with ⟨s, hs, hwithin⟩
  have hmem : s ∈ Stmt.ofKind s.declKind f.stmts := List.mem_filter.mpr ⟨hs, decide_eq_true rfl⟩
  rcases (hfinished.exposes hΓ₅ hstmt).2 s hs with ⟨_, _, hΔ, hdone⟩
  -- A declaration is not judged as a whole, its head and its body being judged in different
  -- contexts; but all that stands in it is.
  have hparts : ∀ m, (Node.stmt s).Part m → m.Judged D c := by
    intro m hm
    refine hdone.judged_part hD hΔ ?_ ?_ (hshown s hs) hm
    · rintro (hkind | hkind) <;> rw [hkind] at hmem
      · exact hclasses s hmem
      · exact hfunctions s hmem
    · rintro (hkind | hkind | hkind) <;> rw [hkind] at hmem
      · exact himports.judged hΓ (hkinds _) s hmem
      · exact hinterfaces.judged hΓ₁ (hkinds _) s hmem
      · exact hvalues.judged hΓ₄ (hkinds _) s hmem
  rcases hwithin.cases_head with hsame | ⟨n, hn, hinner⟩
  · cases hsame
  · exact (hparts n hn).within hD ((hshown s hs).part hn) hinner

theorem Node.Judged.member {object : Expr} {x : Ident} {access : Access} {ty : Ty} {span : Span}
    (h : (Node.expr ⟨.get object x access, ty, span⟩).Judged D c)
    (hobject : object.ty = .classTy c) : access = .field ∧ c.member? x.name = some ty := by
  cases h with
  | expr hΓ he =>
      cases he with
      | intro hkind _ =>
          cases hkind with
          | get _ hmember =>
              rw [hobject] at hmember
              cases hmember with
              | field hfield =>
                  rw [Scopes.currentClass_of_not_hides hΓ.scopes] at hfield
                  exact ⟨rfl, hfield⟩
              | standard hbuiltin _ _ => cases hbuiltin
              | renamed hbuiltin _ _ => cases hbuiltin

end Typed

/-!
# Sessions
-/

theorem Session.not_shares_of_plain {σ : Session} {space : String} (h : ':' ∉ space.toList) :
    ¬σ.Shares space := by
  rintro ⟨package, name, _, rfl⟩
  apply h
  simp

theorem Session.contextOf_after_exposes (settings : Settings) (packages : Resolver)
    (files : List Source.File) {name : String} (hname : ':' ∉ name.toList) {c : ClassTy}
    (hshown : ¬((after settings packages files).contextOf name).scopes.Hides c) :
    ((after settings packages files).contextOf name).Exposes c := by
  have hspace : Checker.spaceOf (after settings packages files) name = name := by
    unfold Checker.spaceOf
    rw [after_underWay]
  refine ⟨hshown, ?_⟩
  show ¬(after settings packages files).Shares (Checker.spaceOf _ name)
  rw [hspace]
  exact not_shares_of_plain hname

/--
A class has its own members where it is not hidden, whatever package it comes from.  In every state,
a member that is read of an expression of the type of the class is the one that the class has, and
the reading fails if it has none, unless the module binds the name of the class to another class of
that name.  And so it is at every place of a file that is checked without a fault, unless the
session or a node of the file binds the name so.
-/
theorem Session.imported_class_keeps_members (settings : Settings) (packages : Resolver) :
    (∀ (depth : Nat) (path space : String) (s s' : State) (e : Source.Expr) (object : Typed.Expr)
        (c : ClassTy), let env : Env := ⟨settings, path, space, load settings packages depth⟩
      Checker.expr e env s = (.ok object, s') → object.ty = .classTy c →
      (∀ var, e.kind = .var var → env.imported? s.session.symbols var.name = none) →
      ¬(s.scopes env).Hides c → ∀ (x : Ident) (span : Span),
      Checker.expr ⟨.get e x, span⟩ env s = (Checker.readOf object c x span, s')) ∧
    ∀ (files : List Source.File) (file : Source.File) (typed : Typed.File),
      packages.Meets Discipline.asRead.condition →
      (∀ f ∈ files, f.meets Discipline.asRead.condition) →
      file.meets Discipline.asRead.condition →
      (check settings packages file (after settings packages files)).1 = .ok typed →
      ':' ∉ typed.name.toList → ∀ c : ClassTy,
      ¬((after settings packages files).contextOf typed.name).scopes.Hides c →
      (∀ n, typed.Holds n → ¬n.Hides c) →
      ∀ (object : Typed.Expr) (x : Ident) (access : Access) (ty : Ty) (span : Span),
        typed.Holds (.expr ⟨.get object x access, ty, span⟩) → object.ty = .classTy c →
        access = .field ∧ c.member? x.name = some ty := by
  constructor
  · intro depth path space s s' e object c env hcheck hobject hname hshown x span
    have hload : env.load.Releases := load_releases settings packages depth
    exact Checker.expr_get_class hload hcheck hobject hname hshown x span
  · intro files file typed hpackages hfiles hfile hchecked hname c hcontext hshown object x access
      ty span hget hobject
    have htyped := check_sound settings hpackages hfiles hfile hchecked
    have hΓ := contextOf_after_exposes settings packages files hname hcontext
    have hstmts : ∀ s ∈ typed.stmts, (Typed.Node.stmt s).Shows c :=
      fun s hs n hn => hshown n ⟨s, hs, hn⟩
    exact (htyped.judged rfl hΓ hstmts hget).member hobject

/-!
# Boxes
-/

namespace Sample

/-- A class with one number. -/
def holding (visibility : Visibility) (name field : String) : Source.Stmt :=
  stmt (.classDecl ⟨ident name, visibility, [⟨ident field, .int, false, none⟩], [], []⟩)

/-- A package that exports a class of boxes with their sizes. -/
def boxes : PackageIndex :=
  ⟨Dict.empty.insert "src/shapes" (.files [file "shapes" [holding .isPublic "Box" "size"]])⟩

def boxTy : ClassTy :=
  ⟨"Box", [⟨"size", .int, false, none⟩], [], [], .isPublic⟩

/-- A file that imports the package, has some declarations of its own, and reads a member of an
imported box. -/
def measuring (declarations : List Source.Stmt) (member : String) : Source.File :=
  file "main" (stmt (.importOne (ident "shapes") none) :: declarations ++
    [returning "measure" [param "box" "shapes.Box"] (get (var "box") member)])

def boxInterface : Source.Stmt :=
  stmt (.interfaceDecl ⟨ident "Box", .isPrivate, [⟨countHead, default⟩]⟩)

def measuredBox : Typed.Expr :=
  ⟨.var (ident "box"), .classTy boxTy, default⟩

def measuredSize : Typed.Expr :=
  ⟨.get measuredBox (ident "size") .field, .int, default⟩

def measuredBody : Typed.Stmt :=
  ⟨.ret (some measuredSize), default⟩

def measured : Typed.File :=
  ⟨"main.aura", "main", [⟨.moduleName (ident "main"), default⟩,
    ⟨.importOne ⟨"shapes", "shapes"⟩, default⟩,
    ⟨.interfaceDecl ⟨"Box", [⟨"count", .isPublic, ⟨[], .int⟩⟩], .isPrivate⟩, default⟩,
    ⟨.classDecl (ident "Crate") ⟨"Crate", [⟨"label", .int, false, none⟩], [], [], .isPrivate⟩ [],
      default⟩,
    ⟨.function ⟨ident "measure",
      ⟨"measure", .isPrivate, ⟨[⟨"box", .classTy boxTy, false, none⟩], .int⟩⟩,
      ⟨[measuredBody], .int, default⟩⟩, default⟩]⟩

def boxScopes : Scopes :=
  (Scopes.empty.bind "Box" (.interfaceTy (.forward "Box" .isPrivate))).bind "box" (.classTy boxTy)

def boxState : State :=
  Checker.initial {} { Session.start {} with
    symbols := (Session.start {}).symbols.setScopes "main" boxScopes }

end Sample

theorem Sample.measured_shows : ∀ n, measured.Holds n → ¬n.Hides boxTy := by
  have hbox : (Typed.Node.expr measuredBox).Shows boxTy :=
    .of_leaf (Typed.Node.not_hides_of_names (by decide)) rfl rfl rfl
  have hsize : (Typed.Node.expr measuredSize).Shows boxTy :=
    .of_parts (Typed.Node.not_hides_of_names (by decide)) rfl (List.forall_mem_singleton.mpr hbox)
      (List.forall_mem_nil _)
  have hbody : (Typed.Node.stmt measuredBody).Shows boxTy :=
    .of_parts (Typed.Node.not_hides_of_names (by decide)) rfl (List.forall_mem_singleton.mpr hsize)
      (List.forall_mem_nil _)
  have hstmts : ∀ s ∈ measured.stmts, (Typed.Node.stmt s).Shows boxTy := by
    unfold measured
    simp only [List.forall_mem_cons, List.not_mem_nil, false_implies, implies_true, and_true]
    refine ⟨?_, ?_, ?_, ?_, ?_⟩
    · exact .of_leaf (Typed.Node.not_hides_of_names (by decide)) rfl rfl rfl
    · exact .of_leaf (Typed.Node.not_hides_of_names (by decide)) rfl rfl rfl
    · exact .of_leaf (Typed.Node.not_hides_interface _ _) rfl rfl rfl
    · exact .of_leaf (Typed.Node.not_hides_of_names (by decide)) rfl rfl rfl
    · exact .of_parts (Typed.Node.not_hides_of_names (by decide)) rfl (List.forall_mem_nil _)
        (List.forall_mem_singleton.mpr hbody)
  rintro n ⟨s, hs, hn⟩
  exact hstmts s hs n hn

theorem Sample.measured_holds : measured.Holds (.expr measuredSize) :=
  ⟨_, .tail _ (.tail _ (.tail _ (.tail _ (.head _)))),
    .head (.body (.head _)) (.single (.operand (.head _)))⟩

/-- An imported box in a file that has an interface of the name of its class, and a class of its
own. -/
theorem Session.imported_class_keeps_members_crate :
    Checker.expr (Sample.get (Sample.var "box") "size")
        ⟨{}, "main.aura", "main", load {} Sample.boxes 1⟩ Sample.boxState =
      (.ok Sample.measuredSize, Sample.boxState) ∧
    Checker.expr (Sample.get (Sample.var "box") "label")
        ⟨{}, "main.aura", "main", load {} Sample.boxes 1⟩ Sample.boxState =
      (.error ⟨.noAttribute "Box" "label", 0⟩, Sample.boxState) ∧
    (check {} Sample.boxes (Sample.measuring
      [Sample.boxInterface, Sample.holding .isPrivate "Crate" "label"] "size") (start {})).1 =
      .ok Sample.measured ∧
    Sample.measured.Holds (.expr Sample.measuredSize) ∧
    Sample.boxTy.member? "size" = some .int := by
  have h := imported_class_keeps_members {} Sample.boxes
  have hname : ∀ var, (Sample.var "box").kind = .var var →
      Env.imported? ⟨{}, "main.aura", "main", load {} Sample.boxes 1⟩
        Sample.boxState.session.symbols var.name = none := by
    rintro var ⟨⟩
    rfl
  have hshown : ¬(Sample.boxState.scopes ⟨{}, "main.aura", "main", load {} Sample.boxes 1⟩).Hides
      Sample.boxTy := by
    rintro ⟨d, hd, _⟩
    cases hd
  have hread := h.1 1 "main.aura" "main" Sample.boxState Sample.boxState (Sample.var "box")
    Sample.measuredBox Sample.boxTy rfl rfl hname hshown
  have hempty : ¬((after {} Sample.boxes []).contextOf Sample.measured.name).scopes.Hides
      Sample.boxTy := by
    rintro ⟨d, hd, _⟩
    cases hd
  have hfile := h.2 [] (Sample.measuring
    [Sample.boxInterface, Sample.holding .isPrivate "Crate" "label"] "size") Sample.measured
    (PackageIndex.meets_resolver rfl) (List.forall_mem_nil _) rfl rfl (by decide) Sample.boxTy
    hempty Sample.measured_shows
  exact ⟨hread (Sample.ident "size") default, hread (Sample.ident "label") default, rfl,
    Sample.measured_holds, (hfile _ _ _ _ _ Sample.measured_holds rfl).2⟩

/--
A class of the name of the imported one takes its place: the imported box has no size, and it has a
label that no box has.
-/
theorem Session.imported_class_hidden :
    ∃ m c errors,
      (after {} Sample.boxes [Sample.measuring [] "size"]).compiled.get? "shapes" = some m ∧
      m.member? "Box" = some (.classTy c) ∧ c.member? "size" = some .int ∧
      c.member? "label" = none ∧
      (check {} Sample.boxes (Sample.measuring [] "size") (start {})).1.isOk = true ∧
      (check {} Sample.boxes (Sample.measuring [Sample.holding .isPrivate "Box" "label"] "size")
        (start {})).1 = .error errors ∧
      errors.errors.map (·.message) = ["'Box' has no attribute 'size'"] ∧
      (check {} Sample.boxes (Sample.measuring [Sample.holding .isPrivate "Box" "label"] "label")
        (start {})).1.isOk = true :=
  ⟨_, Sample.boxTy, _, rfl, rfl, rfl, rfl, rfl, rfl, rfl, rfl⟩

end StaticTyping
