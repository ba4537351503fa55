import StaticTyping.Span

/-!
# Types and typed trees

A type may be a function type, a function type has parameters, a parameter may have a default
value, and a default value is a typed expression that carries types again.  The types and the
typed tree are therefore one family of mutually recursive types.

Typed trees are what checking produces: the source tree with a type on every expression and
block, arguments in declaration order and defaults filled in.
-/

namespace StaticTyping

/-- Who may see a declaration. -/
inductive Visibility where
  | isPublic
  | isPrivate
deriving DecidableEq, Inhabited

inductive BinaryOp where
  | add | sub | mul | div | rem
deriving DecidableEq, Inhabited

inductive LogicalOp where
  | and | or | eq | notEq | less | lessEq | greater | greaterEq
deriving DecidableEq, Inhabited

inductive UnaryOp where
  | neg | not
deriving DecidableEq, Inhabited

def UnaryOp.symbol : UnaryOp → String
  | .neg => "-"
  | .not => "!"

/-- How a member access was resolved: in a module, as a field or method, or as a method of a
builtin type. -/
inductive Access where
  | member (space : String)
  | field
  | builtin (space : String)
deriving DecidableEq, Inhabited

/-- An import as checked: the package and the local name of its members. -/
structure Typed.Import where
  package : String
  space : String
deriving DecidableEq, Inhabited

mutual

/--
The types of the language.  `any` accepts every value and occurs in builtin signatures only;
`noValue` is the type of what produces no value; `unknown` is a written name not looked up yet.
-/
inductive Ty where
  | int
  | float
  | string
  | bool
  | char
  | nil
  | any
  | noValue
  | error
  | unknown (name : String)
  | list (elem : Ty)
  | map (key value : Ty)
  | tuple (items : List Ty)
  | named (f : NamedFunction)
  | function (sig : Signature)
  | classTy (c : ClassTy)
  | interfaceTy (i : InterfaceTy)
  | moduleTy (m : ModuleTy)

/-- A parameter.  For a variadic one, `ty` is the type of each argument it absorbs. -/
structure Param where
  name : String
  ty : Ty
  variadic : Bool
  default : Option Typed.Expr

/-- Parameters in order and the type of the result. -/
structure Signature where
  params : List Param
  ret : Ty

/-- A function declared under a name. -/
structure NamedFunction where
  name : String
  visibility : Visibility
  sig : Signature

/-- A set of method signatures. -/
structure InterfaceTy where
  name : String
  methods : List NamedFunction
  visibility : Visibility

/-- A class.  The parameters of its constructor are also its fields. -/
structure ClassTy where
  name : String
  params : List Param
  methods : List NamedFunction
  implements : List InterfaceTy
  visibility : Visibility

structure Variable where
  name : String
  ty : Ty

/-- What a module shows to its importers. -/
structure ModuleTy where
  name : String
  functions : List NamedFunction
  classes : List ClassTy
  values : List Variable

/-- An expression with its type. -/
structure Typed.Expr where
  kind : Typed.ExprKind
  ty : Ty
  span : Span

/-- The forms of typed expressions.  A call has one argument for each parameter, in their order. -/
inductive Typed.ExprKind where
  | int (value : Int64)
  | float (bits : UInt64)
  | string (value : String)
  | char (value : Char)
  | bool (value : Bool)
  | nil
  | list (items : List Typed.Expr)
  | map (entries : List Typed.Entry)
  | var (name : Ident)
  | this
  | assign (name : Ident) (value : Typed.Expr)
  | increment (operand : Typed.Expr)
  | decrement (operand : Typed.Expr)
  | binary (left : Typed.Expr) (op : BinaryOp) (right : Typed.Expr)
  | logical (left : Typed.Expr) (op : LogicalOp) (right : Typed.Expr)
  | unary (op : UnaryOp) (operand : Typed.Expr)
  | group (inner : Typed.Expr)
  | is (value : Typed.Expr) (interface : InterfaceTy)
  | call (callee : Typed.Expr) (args : List Typed.Expr)
  | get (object : Typed.Expr) (name : Ident) (access : Access)
  | set (object : Typed.Expr) (name : Ident) (value : Typed.Expr)
  | index (object index : Typed.Expr)
  | slice (object lower upper : Typed.Expr)
  | block (body : Typed.Block)
  | cond (condition : Typed.Expr) (thenBranch : Typed.Block) (elseBranch : Option Typed.Expr)
  | lambda (params : List Param) (ret : Ty) (body : Typed.Block)

structure Typed.Entry where
  key : Typed.Expr
  value : Typed.Expr

/-- A block and the type of the value it produces. -/
structure Typed.Block where
  stmts : List Typed.Stmt
  ty : Ty
  span : Span

/-- A checked function or method. -/
structure Typed.Function where
  name : Ident
  sig : NamedFunction
  body : Typed.Block

/-- A checked statement. -/
structure Typed.Stmt where
  kind : Typed.StmtKind
  span : Span

/-- The forms of checked statements. -/
inductive Typed.StmtKind where
  | defer (callee : Typed.Expr) (args : List Typed.Expr)
  | expr (value : Typed.Expr)
  | forLoop (init : Option Typed.Stmt) (condition increment : Option Typed.Expr)
      (body : List Typed.Stmt)
  | forEach (name : Ident) (iterable : Typed.Expr) (body : List Typed.Stmt)
  | whileLoop (condition : Typed.Expr) (body : List Typed.Stmt)
  | function (f : Typed.Function)
  | binding (name : Ident) (isMutable annotated : Bool) (ty : Ty) (init : Typed.Expr)
  | moduleName (name : Ident)
  | ret (value : Option Typed.Expr)
  | yield (value : Typed.Expr)
  | classDecl (name : Ident) (sig : ClassTy) (methods : List Typed.Function)
  | interfaceDecl (sig : InterfaceTy)
  | importOne (target : Typed.Import)
  | importMany (targets : List Typed.Import)
  | comment (text : String)
  | continueLoop
  | breakLoop

end

instance : Inhabited Ty := ⟨.nil⟩
instance : Inhabited Signature := ⟨⟨[], .nil⟩⟩
instance : Inhabited Typed.Expr := ⟨⟨.nil, .nil, default⟩⟩

def Typed.Stmt.ty (_ : Typed.Stmt) : Ty :=
  .noValue

/-- Whether the outermost form of an expression is that of a literal. -/
def Typed.Expr.isLiteral (e : Typed.Expr) : Bool :=
  match e.kind with
  | .int _ | .float _ | .string _ | .char _ | .bool _ | .nil | .list _ | .map _ => true
  | _ => false

namespace Param

def bodyTy (p : Param) : Ty :=
  if p.variadic then .list p.ty else p.ty

end Param

def Signature.restParam? (sig : Signature) : Option Param :=
  sig.params.getLast?.filter (·.variadic)

namespace ClassTy

def forward (name : String) (visibility : Visibility) : ClassTy :=
  ⟨name, [], [], [], visibility⟩

def method? (c : ClassTy) (name : String) : Option NamedFunction :=
  c.methods.find? (·.name == name)

/-- A field or else a method by name. -/
def member? (c : ClassTy) (name : String) : Option Ty :=
  match c.params.find? (·.name == name) with
  | some p => some p.bodyTy
  | none => (c.method? name).map .named

def constructor (c : ClassTy) : Signature :=
  ⟨c.params, .classTy c⟩

end ClassTy

namespace InterfaceTy

def forward (name : String) (visibility : Visibility) : InterfaceTy :=
  ⟨name, [], visibility⟩

def method? (i : InterfaceTy) (name : String) : Option NamedFunction :=
  i.methods.find? (·.name == name)

end InterfaceTy

namespace ModuleTy

def members (m : ModuleTy) : List (String × Ty) :=
  m.functions.map (fun f => (f.name, .named f)) ++
    m.classes.map (fun c => (c.name, .classTy c)) ++
      m.values.map (fun v => (v.name, v.ty))

/-- The first member of that name. -/
def member? (m : ModuleTy) (name : String) : Option Ty :=
  (m.members.find? (·.1 == name)).map (·.2)

def append (m n : ModuleTy) : ModuleTy :=
  ⟨m.name, m.functions ++ n.functions, m.classes ++ n.classes, m.values ++ n.values⟩

end ModuleTy

end StaticTyping
