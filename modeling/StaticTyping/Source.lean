import StaticTyping.Ty.Basic

/-!
# Source trees

Programs as they are written: expressions, statements, blocks and declarations, each with the
span it was read from.  Annotations are types in which the names of classes and interfaces are
still `Ty.unknown`.
-/

namespace StaticTyping
namespace Source

/-- One package to import, with the local name it gets if it is given one. -/
structure Import where
  package : Ident
  alias? : Option Ident
  span : Span
deriving DecidableEq, Inhabited

mutual

/-- An expression and where it stands. -/
structure Expr where
  kind : ExprKind
  span : Span

/-- The forms of expressions.  A call has a span of its own beside that of the expression. -/
inductive ExprKind where
  | int (value : Int64)
  | float (bits : UInt64)
  | string (value : String)
  | char (value : Char)
  | bool (value : Bool)
  | nil
  | list (items : List Expr)
  | map (entries : List Entry)
  | var (name : Ident)
  | this
  | assign (name : Ident) (value : Expr)
  | increment (operand : Expr)
  | decrement (operand : Expr)
  | binary (left : Expr) (op : BinaryOp) (right : Expr)
  | logical (left : Expr) (op : LogicalOp) (right : Expr)
  | unary (op : UnaryOp) (operand : Expr)
  | group (inner : Expr)
  | is (value : Expr) (interface : Ident)
  | call (callee : Expr) (args : List Arg) (callSpan : Span)
  | get (object : Expr) (name : Ident)
  | set (object : Expr) (name : Ident) (value : Expr)
  | index (object index : Expr)
  | slice (object lower upper : Expr)
  | block (body : Block)
  | cond (condition : Expr) (thenBranch : Block) (elseBranch : Option Expr)
  | lambda (params : List Param) (ret : Option Ty) (body : Block)

structure Entry where
  key : Expr
  value : Expr

/-- An argument, named or positional. -/
structure Arg where
  name : Option Ident
  value : Expr

/-- A parameter as declared. -/
structure Param where
  name : Ident
  ty : Ty
  variadic : Bool
  default : Option Expr

/-- Statements that are run in order in a scope of their own. -/
structure Block where
  stmts : List Stmt
  span : Span

structure Head where
  name : Ident
  visibility : Visibility
  params : List Param
  ret : Option Ty

structure Method where
  head : Head
  body : Block
  span : Span

structure Requirement where
  head : Head
  span : Span

/-- A class declaration. -/
structure ClassDecl where
  name : Ident
  visibility : Visibility
  params : List Param
  methods : List Method
  implements : List Ident

structure InterfaceDecl where
  name : Ident
  visibility : Visibility
  methods : List Requirement

structure Binding where
  name : Ident
  isMutable : Bool
  written : Option Ty
  init : Option Expr

/-- A statement and where it stands. -/
structure Stmt where
  kind : StmtKind
  span : Span

inductive StmtKind where
  | defer (callee : Expr) (args : List Arg) (callSpan : Span)
  | expr (value : Expr)
  | forLoop (init : Option Stmt) (condition increment : Option Expr) (body : List Stmt)
  | forEach (name : Ident) (iterable : Expr) (body : List Stmt)
  | whileLoop (condition : Expr) (body : List Stmt)
  | function (head : Head) (body : Block)
  | binding (decl : Binding)
  | moduleName (name : Ident)
  | ret (value : Option Expr)
  | yield (value : Expr)
  | classDecl (decl : ClassDecl)
  | interfaceDecl (decl : InterfaceDecl)
  | importOne (package : Ident) (alias? : Option Ident)
  | importMany (imports : List Import)
  | comment (text : String)
  | continueLoop
  | breakLoop

end

instance : Inhabited Expr := ⟨⟨.nil, default⟩⟩
instance : Inhabited Stmt := ⟨⟨.breakLoop, default⟩⟩

def lastSegment (path : String) : String :=
  String.ofList (path.toList.reverse.takeWhile (· != '/')).reverse

/-- The local name of an import: its alias, or else the last segment of the package. -/
def Import.space (i : Import) : String :=
  match i.alias? with
  | some given => given.name
  | none => lastSegment i.package.name

def Expr.line (e : Expr) : UInt32 :=
  e.span.line

def Expr.isLiteral (e : Expr) : Bool :=
  match e.kind with
  | .int _ | .float _ | .string _ | .char _ | .bool _ | .nil | .list _ | .map _ => true
  | _ => false

/-- A file and the statements in it. -/
structure File where
  path : String
  stmts : List Stmt

end Source
end StaticTyping
