import StaticTyping.Checker.Expression
import StaticTyping.Checker.Statement

/-!
# The check of a tree

Every node of a source tree stands for a check, put together by the rule of its form from the
checks of its parts.
-/

namespace StaticTyping
namespace Checker

open CheckM

mutual

/-- The check of an expression, inside the construct that it is. -/
def expr : Source.Expr → CheckM Typed.Expr
  | ⟨kind, span⟩ =>
      match ExprContext.ofExpr ⟨kind, span⟩ with
      | .block => exprKind kind span
      | c => inExpr c (exprKind kind span)
termination_by structural e => e

def exprKind : Source.ExprKind → Span → CheckM Typed.Expr
  | .int v, span => pure ⟨.int v, .int, span⟩
  | .float bits, span => pure ⟨.float bits, .float, span⟩
  | .string s, span => pure ⟨.string s, .string, span⟩
  | .char c, span => pure ⟨.char c, .char, span⟩
  | .bool b, span => pure ⟨.bool b, .bool, span⟩
  | .nil, span => pure ⟨.nil, .nil, span⟩
  | .list items, span => listLiteral (operands items) span
  | .map es, span => mapLiteral (entries es) span
  | .var name, span => varExpr name span
  | .this, span => thisExpr span
  | .assign name value, span => assign name (.ofExpr value (expr value)) span
  | .increment e, span => increment (expr e) span
  | .decrement e, span => decrement (expr e) span
  | .binary left op right, span => binary (expr left) op (.ofExpr right (expr right)) span
  | .logical left op right, span => logical (expr left) op (.ofExpr right (expr right)) span
  | .unary op e, span => unary op (expr e) span
  | .group e, span => group (expr e) span
  | .is value interface, span => isTest (expr value) interface span
  | .call callee args callSpan, span =>
      callExpr (call callee (expr callee) (arguments args) callSpan) span
  | .get object name, span => getExpr (member object (expr object) name) name span
  | .set object name value, span =>
      setExpr (settableMember object (expr object) name) name (.ofExpr value (expr value)) span
  | .index object index, span => indexExpr (expr object) (expr index) span
  | .slice object lower upper, span => sliceExpr (expr object) (expr lower) (expr upper) span
  | .block b, span => blockExpr (blockOf b) span
  | .cond condition thenBranch otherwise, span =>
      condExpr (.ofExpr condition (expr condition)) (blockOf thenBranch) (exprOption otherwise) span
  | .lambda ps ret body, span =>
      lambda (signature (params ps) ret span.line) (blockOf body) span
termination_by structural k => k

def operands : List Source.Expr → List Operand
  | [] => []
  | e :: es => .ofExpr e (expr e) :: operands es
termination_by structural es => es

def entries : List Source.Entry → List (Operand × Operand)
  | [] => []
  | ⟨key, value⟩ :: es => (.ofExpr key (expr key), .ofExpr value (expr value)) :: entries es
termination_by structural es => es

/-- The arguments of a call. -/
def arguments : List Source.Arg → List Argument
  | [] => []
  | ⟨name, value⟩ :: args => ⟨name, .ofExpr value (expr value)⟩ :: arguments args
termination_by structural args => args

def exprOption : Option Source.Expr → Option (CheckM Typed.Expr)
  | none => none
  | some e => some (expr e)
termination_by structural e => e

def operandOption : Option Source.Expr → Option Operand
  | none => none
  | some e => some (.ofExpr e (expr e))
termination_by structural e => e

def defaultOption : Option Source.Expr → Option (Source.Expr × Operand)
  | none => none
  | some e => some (e, .ofExpr e (expr e))
termination_by structural e => e

/-- The checks of parameters. -/
def params : List Source.Param → List (CheckM Param)
  | [] => []
  | ⟨name, ty, variadic, default⟩ :: ps =>
      param name ty variadic (defaultOption default) :: params ps
termination_by structural ps => ps

def head : Source.Head → UInt32 → CheckM NamedFunction
  | ⟨name, visibility, ps, ret⟩, line => do
      let sig ← signature (params ps) ret line
      pure ⟨name.name, visibility, sig⟩
termination_by structural h => h

/-- The check of a block. -/
def blockOf : Source.Block → CheckM Typed.Block
  | ⟨ss, span⟩ => block (stmts ss) span
termination_by structural b => b

def methodHeads : List Source.Method → List (CheckM NamedFunction)
  | [] => []
  | ⟨h, _, span⟩ :: ms => head h span.line :: methodHeads ms
termination_by structural ms => ms

def methodBodies : List Source.Method → List (NamedFunction → CheckM Typed.Function)
  | [] => []
  | ⟨⟨name, _, _, _⟩, body, span⟩ :: ms =>
      functionOf name (blockOf body) span.line :: methodBodies ms
termination_by structural ms => ms

def requirements : List Source.Requirement → List (CheckM NamedFunction)
  | [] => []
  | ⟨h, span⟩ :: rs => head h span.line :: requirements rs
termination_by structural rs => rs

def classOf : Source.ClassDecl → CheckM ClassTy
  | ⟨name, visibility, ps, ms, implements⟩ =>
      classHead name visibility (params ps) (methodHeads ms) implements
termination_by structural d => d

/-- The check of a class, whose signature is known or found first. -/
def classWith : Source.ClassDecl → CheckM ClassTy → Span → CheckM Typed.Stmt
  | ⟨name, _, _, ms, _⟩, sig, span => classDecl name sig (methodBodies ms) span
termination_by structural d => d

def interfaceOf : Source.InterfaceDecl → CheckM InterfaceTy
  | ⟨name, visibility, rs⟩ => interfaceHead name visibility (requirements rs)
termination_by structural d => d

def bindingOf : Source.Binding → Span → CheckM Typed.Stmt
  | ⟨name, isMutable, written, init⟩, span =>
      binding name isMutable written (operandOption init) span
termination_by structural d => d

/-- The check of a statement. -/
def stmt : Source.Stmt → CheckM Typed.Stmt
  | ⟨kind, span⟩ => stmtKind kind span
termination_by structural s => s

def stmtOption : Option Source.Stmt → Option (CheckM Typed.Stmt)
  | none => none
  | some s => some (stmt s)
termination_by structural s => s

/-- The checks of statements. -/
def stmts : List Source.Stmt → List (CheckM Typed.Stmt)
  | [] => []
  | s :: ss => stmt s :: stmts ss
termination_by structural ss => ss

def stmtKind : Source.StmtKind → Span → CheckM Typed.Stmt
  | .defer callee args callSpan, span =>
      deferStmt (call callee (expr callee) (arguments args) callSpan) span
  | .expr value, span => exprStmt (expr value) span
  | .forLoop init condition increment body, span =>
      forLoop (stmtOption init) (operandOption condition) (operandOption increment) (stmts body)
        span
  | .forEach name iterable body, span => forEach name (expr iterable) (stmts body) span
  | .whileLoop condition body, span =>
      whileLoop (.ofExpr condition (expr condition)) (stmts body) span
  | .function h body, span => functionDecl h.name (head h span.line) (blockOf body) span
  | .binding d, span => bindingOf d span
  | .moduleName name, span => pure ⟨.moduleName name, span⟩
  | .ret value, span => returnStmt (operandOption value) span
  | .yield value, span => yieldStmt (expr value) span
  | .classDecl d, span => classWith d (classOf d) span
  | .interfaceDecl d, span => interfaceDecl (interfaceOf d) span
  | .importOne package alias?, span => importStmt package alias? span
  | .importMany imports, span => importsStmt imports span
  | .comment text, span => pure ⟨.comment text, span⟩
  | .continueLoop, span => continueStmt span
  | .breakLoop, span => breakStmt span
termination_by structural k => k

end

end Checker
end StaticTyping
