import StaticTyping.Source

/-!
# Enclosing constructs

What stands around the place that is being checked, innermost first.  Some statements decide
whether a loop can be left or continued from here, some expressions whether a value can be
yielded.
-/

namespace StaticTyping

/-- A statement around the place that is being checked. -/
inductive StmtContext where
  | forLoop
  | forEach
  | whileLoop
  | function
  | classDecl
  | binding
  | ret
  | defer
deriving DecidableEq, Inhabited

def StmtContext.isLoop : StmtContext → Bool
  | .forLoop | .forEach | .whileLoop => true
  | _ => false

/-- An expression around the place that is being checked. -/
inductive ExprContext where
  | cond
  | block
  | other
deriving DecidableEq, Inhabited

namespace ExprContext

def ofExpr (e : Source.Expr) : ExprContext :=
  match e.kind with
  | .cond _ _ _ => .cond
  | .block _ => .block
  | _ => .other

def takesYield : ExprContext → Bool
  | .cond | .block => true
  | .other => false

end ExprContext

abbrev ContextStack (α : Type) :=
  List α

namespace ContextStack

variable {α : Type}

def push (e : ContextStack α) (a : α) : ContextStack α :=
  a :: e

def pop (e : ContextStack α) : ContextStack α :=
  e.tail

def top? (e : ContextStack α) : Option α :=
  e.head?

@[simp] theorem pop_push (e : ContextStack α) (a : α) : (e.push a).pop = e :=
  rfl

end ContextStack
end StaticTyping
