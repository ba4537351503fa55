import StaticTyping.Checker.Access
import StaticTyping.Checker.Declaration

/-!
# Rules for statements

One rule for each form of statement that is not a declaration.
-/

namespace StaticTyping
namespace CheckM

def deferStmt (call : CheckM Call) (span : Span) : CheckM Typed.Stmt :=
  inStmt .defer do
    let call ← call
    pure ⟨.defer call.callee call.args, span⟩

def exprStmt (value : CheckM Typed.Expr) (span : Span) : CheckM Typed.Stmt := do
  let value ← value
  pure ⟨.expr value, span⟩

def forLoop (init : Option (CheckM Typed.Stmt)) (condition increment : Option Operand)
    (body : List (CheckM Typed.Stmt)) (span : Span) : CheckM Typed.Stmt :=
  inStmt .forLoop <| inScope do
    let init ← optional init
    let condition ← optional (condition.map (·.confirm .bool))
    let increment ← optional (increment.map (·.check))
    let body ← collect body
    pure ⟨.forLoop init condition increment body, span⟩

def forEach (name : Ident) (iterable : CheckM Typed.Expr) (body : List (CheckM Typed.Stmt))
    (span : Span) : CheckM Typed.Stmt :=
  inStmt .forEach <| inScope do
    let iterable ← iterable
    let elem ← orFail iterable.ty.element? (.notIterable iterable.ty) span.line
    declare name.name elem
    let body ← collect body
    pure ⟨.forEach name iterable body, span⟩

def whileLoop (condition : Operand) (body : List (CheckM Typed.Stmt)) (span : Span) :
    CheckM Typed.Stmt :=
  inStmt .whileLoop <| inScope do
    let condition ← condition.confirm .bool
    let body ← collect body
    pure ⟨.whileLoop condition body, span⟩

def returnStmt (value : Option Operand) (span : Span) : CheckM Typed.Stmt :=
  inStmt .ret do
    let value ← optional (value.map (·.check))
    pure ⟨.ret value, span⟩

def insideLoop : CheckM Bool :=
  view fun _ s => s.stmts.top?.any StmtContext.isLoop

def insideYielding : CheckM Bool :=
  view fun _ s => s.exprs.top?.any ExprContext.takesYield

def continueStmt (span : Span) : CheckM Typed.Stmt := do
  let ok ← insideLoop
  require ok .misplacedContinue span.line
  pure ⟨.continueLoop, span⟩

def breakStmt (span : Span) : CheckM Typed.Stmt := do
  let ok ← insideLoop
  require ok .misplacedBreak span.line
  pure ⟨.breakLoop, span⟩

def yieldStmt (value : CheckM Typed.Expr) (span : Span) : CheckM Typed.Stmt := do
  let ok ← insideYielding
  require ok .misplacedYield span.line
  let value ← value
  pure ⟨.yield value, span⟩

def importStmt (package : Ident) (alias? : Option Ident) (span : Span) : CheckM Typed.Stmt := do
  let target ← importModule ⟨package, alias?, span⟩
  pure ⟨.importOne target, span⟩

def importsStmt (imports : List Source.Import) (span : Span) : CheckM Typed.Stmt := do
  let targets ← collect (imports.map importModule)
  pure ⟨.importMany targets, span⟩

end CheckM
end StaticTyping
