import StaticTyping.Checker.Access
import StaticTyping.Checker.Declaration

/-!
# Rules for expressions

One rule for each form of expression, from the checks of its parts to the typed expression.
-/

namespace StaticTyping
namespace CheckM

def listLiteral (items : List Operand) (span : Span) : CheckM Typed.Expr :=
  match items with
  | [] => pure ⟨.list [], .list .any, span⟩
  | first :: rest => do
      let first ← first.check
      let rest ← collect (rest.map (·.confirm first.ty))
      pure ⟨.list (first :: rest), .list first.ty, span⟩

def mapEntry (keyTy valueTy : Ty) (entry : Operand × Operand) : CheckM Typed.Entry := do
  let key ← entry.1.confirm keyTy
  let value ← entry.2.confirm valueTy
  pure ⟨key, value⟩

def mapLiteral (entries : List (Operand × Operand)) (span : Span) : CheckM Typed.Expr :=
  match entries with
  | [] => pure ⟨.map [], .map .any .any, span⟩
  | first :: rest => do
      let key ← first.1.check
      let value ← first.2.check
      let rest ← collect (rest.map (mapEntry key.ty value.ty))
      pure ⟨.map (⟨key, value⟩ :: rest), .map key.ty value.ty, span⟩

def varExpr (name : Ident) (span : Span) : CheckM Typed.Expr := do
  let ty ← variableTy name
  pure ⟨.var name, ty, span⟩

def thisExpr (span : Span) : CheckM Typed.Expr := do
  let c ← view fun _ s => s.classes.top?
  let c ← orFail c .misplacedThis span.line
  pure ⟨.this, .classTy c, span⟩

def assign (name : Ident) (value : Operand) (span : Span) : CheckM Typed.Expr := do
  let target ← valueOf name.name name.line
  let value ← value.confirm target
  pure ⟨.assign name value, value.ty, span⟩

def increment (operand : CheckM Typed.Expr) (span : Span) : CheckM Typed.Expr := do
  let operand ← operand
  require operand.ty.isNumeric (.incrementOf operand.ty) span.line
  pure ⟨.increment operand, operand.ty, span⟩

def decrement (operand : CheckM Typed.Expr) (span : Span) : CheckM Typed.Expr := do
  let operand ← operand
  require operand.ty.isNumeric (.decrementOf operand.ty) span.line
  pure ⟨.decrement operand, operand.ty, span⟩

def binary (left : CheckM Typed.Expr) (op : BinaryOp) (right : Operand) (span : Span) :
    CheckM Typed.Expr := do
  let left ← left
  let right ← right.confirm left.ty
  pure ⟨.binary left op right, left.ty, span⟩

def logical (left : CheckM Typed.Expr) (op : LogicalOp) (right : Operand) (span : Span) :
    CheckM Typed.Expr := do
  let left ← left
  let right ← right.confirm left.ty
  pure ⟨.logical left op right, .bool, span⟩

def unaryApplies : UnaryOp → Ty → Bool
  | .neg, ty => ty.isNumeric
  | .not, ty => ty.isBool

def unary (op : UnaryOp) (operand : CheckM Typed.Expr) (span : Span) : CheckM Typed.Expr := do
  let operand ← operand
  require (unaryApplies op operand.ty) (.unaryOperand op operand.ty) span.line
  pure ⟨.unary op operand, operand.ty, span⟩

def group (inner : CheckM Typed.Expr) (span : Span) : CheckM Typed.Expr := do
  let inner ← inner
  pure ⟨.group inner, inner.ty, span⟩

def isTest (value : CheckM Typed.Expr) (interface : Ident) (span : Span) : CheckM Typed.Expr := do
  let value ← value
  let ty ← valueOf interface.name interface.line
  match ty with
  | .interfaceTy i => pure ⟨.is value i, .bool, span⟩
  | _ => fail (.notInterface interface.name) span.line

def callExpr (call : CheckM Call) (span : Span) : CheckM Typed.Expr := do
  let call ← call
  pure ⟨.call call.callee call.args, call.ty, span⟩

def getExpr (member : CheckM Member) (name : Ident) (span : Span) : CheckM Typed.Expr := do
  let m ← member
  pure ⟨.get m.object name m.access, m.ty, span⟩

def setExpr (member : CheckM Member) (name : Ident) (value : Operand) (span : Span) :
    CheckM Typed.Expr := do
  let m ← member
  let value ← value.confirm m.ty
  pure ⟨.set m.object name value, value.ty, span⟩

def indexExpr (object index : CheckM Typed.Expr) (span : Span) : CheckM Typed.Expr := do
  let object ← object
  let types ← orFail object.ty.indexTypes? (.notIndexable object.ty) span.line
  let index ← index
  require (types.1.same index.ty) (.typeMismatch types.1 index.ty) span.line
  pure ⟨.index object index, types.2, span⟩

def sliceExpr (object lower upper : CheckM Typed.Expr) (span : Span) : CheckM Typed.Expr := do
  let object ← object
  let bound ← orFail object.ty.sliceBound? (.notSliceable object.ty) span.line
  let lower ← lower
  let upper ← upper
  require (bound.same lower.ty) (.typeMismatch bound lower.ty) span.line
  require (bound.same upper.ty) (.typeMismatch bound upper.ty) span.line
  pure ⟨.slice object lower upper, object.ty, span⟩

/-- The type of a block: that of the value which its last statement returns or yields, and else
`nil`. -/
def valueTyOf (stmts : List Typed.Stmt) : Ty :=
  match stmts.getLast? with
  | some ⟨.ret (some value), _⟩ => value.ty
  | some ⟨.yield value, _⟩ => value.ty
  | _ => .nil

def block (stmts : List (CheckM Typed.Stmt)) (span : Span) : CheckM Typed.Block :=
  inExpr .block <| inScope do
    let stmts ← collect stmts
    pure ⟨stmts, valueTyOf stmts, span⟩

def blockExpr (body : CheckM Typed.Block) (span : Span) : CheckM Typed.Expr := do
  let body ← body
  pure ⟨.block body, body.ty, span⟩

def elseBranch (thenTy : Ty) : Option (CheckM Typed.Expr) → CheckM (Option Typed.Expr)
  | none => pure none
  | some branch => do
      let branch ← branch
      require (thenTy.same branch.ty) (.typeMismatch thenTy branch.ty) branch.span.line
      pure (some branch)

def condExpr (condition : Operand) (thenBranch : CheckM Typed.Block)
    (otherwise : Option (CheckM Typed.Expr)) (span : Span) : CheckM Typed.Expr := do
  let condition ← condition.confirm .bool
  let thenBranch ← thenBranch
  let otherwise ← elseBranch thenBranch.ty otherwise
  pure ⟨.cond condition thenBranch otherwise, thenBranch.ty, span⟩

def lambda (sig : CheckM Signature) (body : CheckM Typed.Block) (span : Span) :
    CheckM Typed.Expr := do
  let sig ← sig
  let body ← functionBody sig body span.line
  pure ⟨.lambda sig.params sig.ret body, .function sig, span⟩

end CheckM
end StaticTyping
