import StaticTyping.Checker.Tree
import StaticTyping.Proofs.Release

/-!
# Well-typed trees

When a typed tree is well typed, said without the checks that produce one: one rule for each form
of expression and statement, from its parts to it.  Expressions are judged in a context, which is
left as it is; statements lead from one context to the next.

A class is accepted where an interface is expected if, in the forms that the context knows them
in, it satisfies the interface; the forms that the types themselves carry may date from before
the signatures were known.  All other acceptance is that of the types themselves.
-/

namespace StaticTyping

namespace Scopes

/-- Names bound one after another. -/
def bindAll (s : Scopes) (bindings : List (String × Ty)) : Scopes :=
  bindings.foldl (fun s b => s.bind b.1 b.2) s

def currentClass (s : Scopes) (c : ClassTy) : ClassTy :=
  match s.lookup? c.name with
  | some (.classTy current) => if current.name = c.name then current else c
  | _ => c

def currentInterface (s : Scopes) (i : InterfaceTy) : InterfaceTy :=
  match s.lookup? i.name with
  | some (.interfaceTy current) => if current.name = i.name then current else i
  | _ => i

def accepts (s : Scopes) (expected found : Ty) : Bool :=
  match expected, found with
  | .interfaceTy i, .classTy c => (s.currentClass c).satisfies (s.currentInterface i)
  | expected, found => expected.accepts found

end Scopes

/--
Where a tree is judged: the scopes of the module, the enclosing class, and whether packages that
are imported could belong to the same namespace.
-/
structure Context where
  scopes : Scopes
  this? : Option ClassTy
  shared : Prop

instance : Inhabited Context := ⟨⟨.empty, none, False⟩⟩

namespace Context

def bind (Γ : Context) (name : String) (ty : Ty) : Context :=
  { Γ with scopes := Γ.scopes.bind name ty }

def bindAll (Γ : Context) (bindings : List (String × Ty)) : Context :=
  { Γ with scopes := Γ.scopes.bindAll bindings }

def push (Γ : Context) : Context :=
  { Γ with scopes := Γ.scopes.push }

def inClass (Γ : Context) (c : ClassTy) : Context :=
  { Γ with this? := some c }

def Imports (Γ Γ' : Context) : Prop :=
  Γ'.scopes.below = Γ.scopes.below ∧ Γ'.this? = Γ.this? ∧ Γ'.shared = Γ.shared ∧
    (¬Γ.shared → Γ' = Γ)

theorem Imports.refl (Γ : Context) : Γ.Imports Γ :=
  ⟨rfl, rfl, rfl, fun _ => rfl⟩

theorem Imports.trans {Γ Γ' Γ'' : Context} (h : Γ.Imports Γ') (h' : Γ'.Imports Γ'') :
    Γ.Imports Γ'' := by
  rcases h with ⟨hbelow, hthis, hshared, hsame⟩
  rcases h' with ⟨hbelow', hthis', hshared', hsame'⟩
  refine ⟨hbelow'.trans hbelow, hthis'.trans hthis, hshared'.trans hshared, fun hnot => ?_⟩
  exact (hsame' (hshared ▸ hnot)).trans (hsame hnot)

end Context

/--
What trees are held to beside the rules: whether `noValue` may stand in types, whether only the
last parameter of a signature may be variadic, and which local names stand for nothing but the
standard packages that builtin types have their methods from.  Where parameters are in order, each
argument of a call stands for one parameter.  Names that are not looked up stand in no type.
-/
structure Discipline where
  noValue : Bool
  ordered : Bool
  reserved : List String

/--
How a member of a type is found, and its type.  Members of builtin types are those of a standard
package, or of what else is imported under its local name, if the name is not reserved.
-/
inductive Context.Member (D : Discipline) (Γ : Context) : Ty → String → Access → Ty → Prop where
  | field {c name ty} : (Γ.scopes.currentClass c).member? name = some ty →
      Context.Member D Γ (.classTy c) name .field ty
  | method {i name f} : (Γ.scopes.currentInterface i).method? name = some f →
      Context.Member D Γ (.interfaceTy i) name .field (.named f)
  | ofModule {m name ty} : m.member? name = some ty →
      Context.Member D Γ (.moduleTy m) name (.member m.name) ty
  | ofImport {scope : Scope} {space name ty} : scope.get? name = some ty →
      Context.Member D Γ (.moduleTy (scope.toModule space)) name (.member space) ty
  | standard {object package space m name ty} :
      object.builtinPackage? = some (package, space) → Library.standard? package = some m →
      m.member? name = some ty → Context.Member D Γ object name (.builtin space) ty
  | renamed {scope : Scope} {object package space name ty} :
      object.builtinPackage? = some (package, space) → space ∉ D.reserved →
      scope.get? name = some ty → Context.Member D Γ object name (.builtin space) ty

def onlyLast (marks : List Bool) : Bool :=
  marks.dropLast.all (!·)

def Param.ordered (ps : List Param) : Bool :=
  onlyLast (ps.map Param.variadic)

def Param.bindings (ps : List Param) : List (String × Ty) :=
  ps.map fun p => (p.name, p.bodyTy)

namespace Ty

def isAtom : Ty → Bool
  | .int | .float | .string | .bool | .char | .nil | .any | .error => true
  | _ => false

end Ty

def InterfaceTy.bindings (i : InterfaceTy) : List (String × Ty) :=
  (i.name, .interfaceTy i) :: i.methods.map fun f => (f.name, .named f)

/-- The signature `expected` is the one that the arguments of a call are for: of a method of a
builtin type the first parameter takes the object, and has to accept it. -/
inductive Typed.Expr.Expects : Typed.Expr → Signature → Signature → Prop where
  | plain {callee sig} : (∀ object name space, callee.kind ≠ .get object name (.builtin space)) →
      Typed.Expr.Expects callee sig sig
  | method {object name space ty span p params ret} : p.bodyTy.accepts object.ty →
      Typed.Expr.Expects ⟨.get object name (.builtin space), ty, span⟩ ⟨p :: params, ret⟩
        ⟨params, ret⟩

inductive Typed.Stmt.EndIn : List Typed.Stmt → Ty → Prop where
  | ret {ss value span} : Typed.Stmt.EndIn (ss ++ [⟨.ret (some value), span⟩]) value.ty
  | yield {ss value span} : Typed.Stmt.EndIn (ss ++ [⟨.yield value, span⟩]) value.ty
  | nothing {ss} : (∀ value span, ss.getLast? ≠ some ⟨.ret (some value), span⟩) →
      (∀ value span, ss.getLast? ≠ some ⟨.yield value, span⟩) → Typed.Stmt.EndIn ss .nil

mutual

inductive Ty.WellFormed (D : Discipline) : Ty → Prop where
  | atom {t} : t.isAtom → Ty.WellFormed D t
  | noValue : D.noValue → Ty.WellFormed D .noValue
  | list {elem} : Ty.WellFormed D elem → Ty.WellFormed D (.list elem)
  | map {key value} : Ty.WellFormed D key → Ty.WellFormed D value → Ty.WellFormed D (.map key value)
  | tuple {items} : (∀ t ∈ items, Ty.WellFormed D t) → Ty.WellFormed D (.tuple items)
  | named {Γ f} : Signature.WellFormed D Γ f.sig → Ty.WellFormed D (.named f)
  | function {Γ sig} : Signature.WellFormed D Γ sig → Ty.WellFormed D (.function sig)
  | classTy {Γ c} : ClassTy.WellFormed D Γ c → Ty.WellFormed D (.classTy c)
  | interfaceTy {Γ i} : InterfaceTy.WellFormed D Γ i → Ty.WellFormed D (.interfaceTy i)
  | moduleTy {m} : (∀ f ∈ m.functions, Ty.WellFormed D (.named f)) →
      (∀ c ∈ m.classes, Ty.WellFormed D (.classTy c)) → (∀ v ∈ m.values, Ty.WellFormed D v.ty) →
      Ty.WellFormed D (.moduleTy m)

inductive Param.WellFormed (D : Discipline) : Context → Param → Prop where
  | intro {Γ p} : Ty.WellFormed D p.ty → (∀ d, p.default = some d → Typed.Expr.WellTyped D Γ d) →
      (∀ d, p.default = some d → Γ.scopes.accepts p.bodyTy d.ty) → Param.WellFormed D Γ p

inductive Signature.WellFormed (D : Discipline) : Context → Signature → Prop where
  | intro {Γ sig} : (∀ p ∈ sig.params, Param.WellFormed D Γ p) →
      (D.ordered → Param.ordered sig.params) → Ty.WellFormed D sig.ret →
      Signature.WellFormed D Γ sig

inductive InterfaceTy.WellFormed (D : Discipline) : Context → InterfaceTy → Prop where
  | intro {Γ i} : (∀ f ∈ i.methods, Signature.WellFormed D Γ f.sig) → InterfaceTy.WellFormed D Γ i

inductive ClassTy.WellFormed (D : Discipline) : Context → ClassTy → Prop where
  | intro {Γ c} : (∀ p ∈ c.params, Param.WellFormed D Γ p) →
      (D.ordered → Param.ordered c.params) → (∀ f ∈ c.methods, Signature.WellFormed D Γ f.sig) →
      (∀ i ∈ c.implements, Ty.WellFormed D (.interfaceTy i)) → ClassTy.WellFormed D Γ c

inductive Typed.Expr.WellTyped (D : Discipline) : Context → Typed.Expr → Prop where
  | intro {Γ kind ty span} : Typed.ExprKind.HasType D Γ kind ty → Ty.WellFormed D ty →
      Typed.Expr.WellTyped D Γ ⟨kind, ty, span⟩

inductive Typed.Expr.Elsewhere (D : Discipline) : Typed.Expr → Prop where
  | intro {Γ e} : Typed.Expr.WellTyped D Γ e → Typed.Expr.Elsewhere D e

inductive Typed.Expr.Fills (D : Discipline) : Context → Param → Typed.Expr → Prop where
  | given {Γ p e} : Typed.Expr.WellTyped D Γ e → Γ.scopes.accepts p.bodyTy e.ty →
      Typed.Expr.Fills D Γ p e
  | default {Γ Δ p e} : p.default = some e → Typed.Expr.WellTyped D Δ e →
      Δ.scopes.accepts p.bodyTy e.ty → Typed.Expr.Fills D Γ p e

inductive Typed.Expr.Calls (D : Discipline) : Context → Typed.Expr → List Typed.Expr → Ty → Prop where
  | intro {Γ callee args sig expected} : Typed.Expr.WellTyped D Γ callee →
      callee.ty.callSignature? = some sig → callee.Expects sig expected →
      (∀ arg ∈ args, Typed.Expr.Elsewhere D arg) →
      (D.ordered → args.length = expected.params.length) →
      (D.ordered → ∀ pa ∈ expected.params.zip args, Typed.Expr.Fills D Γ pa.1 pa.2) →
      Typed.Expr.Calls D Γ callee args expected.ret

inductive Typed.ExprKind.HasType (D : Discipline) : Context → Typed.ExprKind → Ty → Prop where
  | int {Γ v} : Typed.ExprKind.HasType D Γ (.int v) .int
  | float {Γ bits} : Typed.ExprKind.HasType D Γ (.float bits) .float
  | string {Γ s} : Typed.ExprKind.HasType D Γ (.string s) .string
  | char {Γ c} : Typed.ExprKind.HasType D Γ (.char c) .char
  | bool {Γ b} : Typed.ExprKind.HasType D Γ (.bool b) .bool
  | nil {Γ} : Typed.ExprKind.HasType D Γ .nil .nil
  | list {Γ items elem} : (∀ e ∈ items, Typed.Expr.WellTyped D Γ e) →
      (∀ e ∈ items, Γ.scopes.accepts elem e.ty) →
      Typed.ExprKind.HasType D Γ (.list items) (.list elem)
  | map {Γ entries key value} : (∀ e ∈ entries, Typed.Expr.WellTyped D Γ e.key) →
      (∀ e ∈ entries, Typed.Expr.WellTyped D Γ e.value) →
      (∀ e ∈ entries, Γ.scopes.accepts key e.key.ty) →
      (∀ e ∈ entries, Γ.scopes.accepts value e.value.ty) →
      Typed.ExprKind.HasType D Γ (.map entries) (.map key value)
  | var {Γ name ty} : Typed.ExprKind.HasType D Γ (.var name) ty
  | this {Γ c} : Γ.this? = some c → Typed.ExprKind.HasType D Γ .this (.classTy c)
  | assign {Γ name value} : Typed.Expr.WellTyped D Γ value →
      Typed.ExprKind.HasType D Γ (.assign name value) value.ty
  | increment {Γ e} : Typed.Expr.WellTyped D Γ e → e.ty.isNumeric →
      Typed.ExprKind.HasType D Γ (.increment e) e.ty
  | decrement {Γ e} : Typed.Expr.WellTyped D Γ e → e.ty.isNumeric →
      Typed.ExprKind.HasType D Γ (.decrement e) e.ty
  | binary {Γ left op right} : Typed.Expr.WellTyped D Γ left → Typed.Expr.WellTyped D Γ right →
      Γ.scopes.accepts left.ty right.ty →
      Typed.ExprKind.HasType D Γ (.binary left op right) left.ty
  | logical {Γ left op right} : Typed.Expr.WellTyped D Γ left → Typed.Expr.WellTyped D Γ right →
      Γ.scopes.accepts left.ty right.ty → Typed.ExprKind.HasType D Γ (.logical left op right) .bool
  | neg {Γ e} : Typed.Expr.WellTyped D Γ e → e.ty.isNumeric →
      Typed.ExprKind.HasType D Γ (.unary .neg e) e.ty
  | not {Γ e} : Typed.Expr.WellTyped D Γ e → e.ty = .bool →
      Typed.ExprKind.HasType D Γ (.unary .not e) .bool
  | group {Γ e} : Typed.Expr.WellTyped D Γ e → Typed.ExprKind.HasType D Γ (.group e) e.ty
  | is {Γ value i} : Typed.Expr.WellTyped D Γ value → Ty.WellFormed D (.interfaceTy i) →
      Typed.ExprKind.HasType D Γ (.is value i) .bool
  | call {Γ callee args ty} : Typed.Expr.Calls D Γ callee args ty →
      Typed.ExprKind.HasType D Γ (.call callee args) ty
  | get {Γ object name access ty} : Typed.Expr.WellTyped D Γ object →
      Γ.Member D object.ty name.name access ty →
      Typed.ExprKind.HasType D Γ (.get object name access) ty
  | set {Γ object name value access ty} : Typed.Expr.WellTyped D Γ object →
      Γ.Member D object.ty name.name access ty → Typed.Expr.WellTyped D Γ value →
      Γ.scopes.accepts ty value.ty → Typed.ExprKind.HasType D Γ (.set object name value) value.ty
  | index {Γ object index key value} : Typed.Expr.WellTyped D Γ object →
      object.ty.indexTypes? = some (key, value) → Typed.Expr.WellTyped D Γ index →
      key.same index.ty → Typed.ExprKind.HasType D Γ (.index object index) value
  | slice {Γ object lower upper bound} : Typed.Expr.WellTyped D Γ object →
      object.ty.sliceBound? = some bound → Typed.Expr.WellTyped D Γ lower →
      Typed.Expr.WellTyped D Γ upper → bound.same lower.ty → bound.same upper.ty →
      Typed.ExprKind.HasType D Γ (.slice object lower upper) object.ty
  | block {Γ body} : Typed.Block.WellTyped D Γ body →
      Typed.ExprKind.HasType D Γ (.block body) body.ty
  | cond {Γ condition thenBranch otherwise} : Typed.Expr.WellTyped D Γ condition →
      condition.ty = .bool → Typed.Block.WellTyped D Γ thenBranch →
      (∀ e, otherwise = some e → Typed.Expr.WellTyped D Γ e) →
      (∀ e, otherwise = some e → thenBranch.ty.same e.ty) →
      Typed.ExprKind.HasType D Γ (.cond condition thenBranch otherwise) thenBranch.ty
  | lambda {Γ params ret body} : Signature.WellFormed D Γ ⟨params, ret⟩ →
      Typed.Block.WellTyped D (Γ.push.bindAll (Param.bindings params)) body →
      ret.accepts body.ty →
      Typed.ExprKind.HasType D Γ (.lambda params ret body) (.function ⟨params, ret⟩)

inductive Typed.Block.WellTyped (D : Discipline) : Context → Typed.Block → Prop where
  | intro {Γ Γ' stmts ty span} : Typed.Stmt.AllWellTyped D Γ.push stmts Γ' →
      Typed.Stmt.EndIn stmts ty → Ty.WellFormed D ty →
      Typed.Block.WellTyped D Γ ⟨stmts, ty, span⟩

inductive Typed.Function.WellTyped (D : Discipline) : Context → Typed.Function → Prop where
  | intro {Γ f} : Ty.WellFormed D (.named f.sig) →
      Typed.Block.WellTyped D (Γ.push.bindAll (Param.bindings f.sig.sig.params)) f.body →
      f.sig.sig.ret.accepts f.body.ty → Typed.Function.WellTyped D Γ f

inductive ClassTy.Implemented (D : Discipline) : Context → ClassTy → List Typed.Function → Prop where
  | intro {Γ c methods} : Ty.WellFormed D (.classTy c) → methods.map Typed.Function.sig = c.methods →
      (∀ f ∈ methods, Typed.Function.WellTyped D (Γ.push.inClass c) f) →
      (∀ i ∈ c.implements, c.satisfies i) → ClassTy.Implemented D Γ c methods

inductive Typed.StmtKind.WellTyped (D : Discipline) : Context → Typed.StmtKind → Context → Prop where
  | defer {Γ callee args ty} : Typed.Expr.Calls D Γ callee args ty →
      Typed.StmtKind.WellTyped D Γ (.defer callee args) Γ
  | expr {Γ e} : Typed.Expr.WellTyped D Γ e → Typed.StmtKind.WellTyped D Γ (.expr e) Γ
  | forLoop {Γ Γ₁ Γ₂ init condition increment body} :
      Typed.Stmt.AllWellTyped D Γ.push init.toList Γ₁ →
      (∀ e, condition = some e → Typed.Expr.WellTyped D Γ₁ e) →
      (∀ e, condition = some e → e.ty = .bool) →
      (∀ e, increment = some e → Typed.Expr.WellTyped D Γ₁ e) →
      Typed.Stmt.AllWellTyped D Γ₁ body Γ₂ →
      Typed.StmtKind.WellTyped D Γ (.forLoop init condition increment body) Γ
  | forEach {Γ Γ' name iterable elem body} : Typed.Expr.WellTyped D Γ.push iterable →
      iterable.ty.element? = some elem →
      Typed.Stmt.AllWellTyped D (Γ.push.bind name.name elem) body Γ' →
      Typed.StmtKind.WellTyped D Γ (.forEach name iterable body) Γ
  | whileLoop {Γ Γ' condition body} : Typed.Expr.WellTyped D Γ.push condition →
      condition.ty = .bool → Typed.Stmt.AllWellTyped D Γ.push body Γ' →
      Typed.StmtKind.WellTyped D Γ (.whileLoop condition body) Γ
  | function {Γ f} : Signature.WellFormed D Γ f.sig.sig →
      Typed.Function.WellTyped D (Γ.bind f.name.name (.named f.sig)) f →
      Typed.StmtKind.WellTyped D Γ (.function f) (Γ.bind f.name.name (.named f.sig))
  | binding {Γ name isMutable annotated ty init} : Ty.WellFormed D ty →
      Typed.Expr.WellTyped D Γ init → Γ.scopes.accepts ty init.ty →
      (annotated = false → init.ty = ty) →
      Typed.StmtKind.WellTyped D Γ (.binding name isMutable annotated ty init)
        (Γ.bind name.name ty)
  | moduleName {Γ name} : Typed.StmtKind.WellTyped D Γ (.moduleName name) Γ
  | ret {Γ value} : (∀ e, value = some e → Typed.Expr.WellTyped D Γ e) →
      Typed.StmtKind.WellTyped D Γ (.ret value) Γ
  | yield {Γ e} : Typed.Expr.WellTyped D Γ e → Typed.StmtKind.WellTyped D Γ (.yield e) Γ
  | classDecl {Γ name c methods} : ClassTy.WellFormed D Γ c →
      ClassTy.Implemented D (Γ.bind name.name (.classTy c)) c methods →
      Typed.StmtKind.WellTyped D Γ (.classDecl name c methods) (Γ.bind name.name (.classTy c))
  | interfaceDecl {Γ i} : InterfaceTy.WellFormed D Γ i →
      Typed.StmtKind.WellTyped D Γ (.interfaceDecl i) (Γ.bindAll i.bindings)
  | importOne {Γ Γ' target} : Γ.Imports Γ' → Typed.StmtKind.WellTyped D Γ (.importOne target) Γ'
  | importMany {Γ Γ' targets} : Γ.Imports Γ' →
      Typed.StmtKind.WellTyped D Γ (.importMany targets) Γ'
  | comment {Γ text} : Typed.StmtKind.WellTyped D Γ (.comment text) Γ
  | continueLoop {Γ} : Typed.StmtKind.WellTyped D Γ .continueLoop Γ
  | breakLoop {Γ} : Typed.StmtKind.WellTyped D Γ .breakLoop Γ

inductive Typed.Stmt.AllWellTyped (D : Discipline) : Context → List Typed.Stmt → Context → Prop where
  | nil {Γ} : Typed.Stmt.AllWellTyped D Γ [] Γ
  | cons {Γ Γ' Γ'' s ss} : Typed.StmtKind.WellTyped D Γ s.kind Γ' →
      Typed.Stmt.AllWellTyped D Γ' ss Γ'' → Typed.Stmt.AllWellTyped D Γ (s :: ss) Γ''

end

/-!
# Files

The declarations of a file are known everywhere in it.  They are gone through kind by kind, so
that what the rules ask of a declaration is asked in the context that its kind has come to: first
the imports; then, with every class and interface known by its name alone, the interfaces; the
signatures of classes and those of functions; the variables; and at last the bodies.
-/

inductive DeclKind where
  | imports
  | interfaces
  | classes
  | functions
  | values
  | other
deriving DecidableEq

def Typed.Stmt.declKind (s : Typed.Stmt) : DeclKind :=
  match s.kind with
  | .importOne _ | .importMany _ => .imports
  | .interfaceDecl _ => .interfaces
  | .classDecl _ _ _ => .classes
  | .function _ => .functions
  | .binding _ _ _ _ _ => .values
  | _ => .other

def Typed.Stmt.ofKind (k : DeclKind) (ss : List Typed.Stmt) : List Typed.Stmt :=
  ss.filter (·.declKind = k)

def Typed.Stmt.forward? (s : Typed.Stmt) : Option (String × Ty) :=
  match s.kind with
  | .classDecl name c _ => some (name.name, .classTy (.forward name.name c.visibility))
  | .interfaceDecl i => some (i.name, .interfaceTy (.forward i.name i.visibility))
  | _ => none

inductive Typed.StmtKind.Declared (D : Discipline) : Context → Typed.StmtKind → Context → Prop where
  | classDecl {Γ name c methods} : c.WellFormed D Γ →
      Typed.StmtKind.Declared D Γ (.classDecl name c methods) (Γ.bind name.name (.classTy c))
  | function {Γ f} : f.sig.sig.WellFormed D Γ →
      Typed.StmtKind.Declared D Γ (.function f) (Γ.bind f.name.name (.named f.sig))

inductive Typed.Stmt.AllDeclared (D : Discipline) : Context → List Typed.Stmt → Context → Prop where
  | nil {Γ} : Typed.Stmt.AllDeclared D Γ [] Γ
  | cons {Γ Γ' Γ'' s ss} : s.kind.Declared D Γ Γ' → Typed.Stmt.AllDeclared D Γ' ss Γ'' →
      Typed.Stmt.AllDeclared D Γ (s :: ss) Γ''

inductive Typed.Stmt.Finished (D : Discipline) : Context → Typed.Stmt → Context → Prop where
  | function {Γ f span} : f.WellTyped D (Γ.bind f.name.name (.named f.sig)) →
      Typed.Stmt.Finished D Γ ⟨.function f, span⟩ (Γ.bind f.name.name (.named f.sig))
  | classDecl {Γ name c methods span} : c.Implemented D (Γ.bind name.name (.classTy c)) methods →
      Typed.Stmt.Finished D Γ ⟨.classDecl name c methods, span⟩ (Γ.bind name.name (.classTy c))
  | declared {Γ s} : s.declKind = .imports ∨ s.declKind = .interfaces ∨ s.declKind = .values →
      Typed.Stmt.Finished D Γ s Γ
  | other {Γ Γ' s} : s.declKind = .other → s.kind.WellTyped D Γ Γ' → Typed.Stmt.Finished D Γ s Γ'

inductive Typed.Stmt.AllFinished (D : Discipline) : Context → List Typed.Stmt → Context → Prop where
  | nil {Γ} : Typed.Stmt.AllFinished D Γ [] Γ
  | cons {Γ Γ' Γ'' s ss} : s.Finished D Γ Γ' → Typed.Stmt.AllFinished D Γ' ss Γ'' →
      Typed.Stmt.AllFinished D Γ (s :: ss) Γ''

/-- A file that is well typed in the context that it is met with. -/
inductive Typed.File.WellTyped (D : Discipline) : Context → Typed.File → Prop where
  | intro {f Γ₀ Γ₁ Γ₂ Γ₃ Γ₄ Γ₅ Γ₆} :
      Typed.Stmt.AllWellTyped D Γ₀ (Typed.Stmt.ofKind .imports f.stmts) Γ₁ →
      Typed.Stmt.AllWellTyped D (Γ₁.bindAll (f.stmts.filterMap Typed.Stmt.forward?))
        (Typed.Stmt.ofKind .interfaces f.stmts) Γ₂ →
      Typed.Stmt.AllDeclared D Γ₂ (Typed.Stmt.ofKind .classes f.stmts) Γ₃ →
      Typed.Stmt.AllDeclared D Γ₃ (Typed.Stmt.ofKind .functions f.stmts) Γ₄ →
      Typed.Stmt.AllWellTyped D Γ₄ (Typed.Stmt.ofKind .values f.stmts) Γ₅ →
      Typed.Stmt.AllFinished D Γ₅ f.stmts Γ₆ → Typed.File.WellTyped D Γ₀ f

end StaticTyping
