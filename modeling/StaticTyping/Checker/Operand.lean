import StaticTyping.Checker.Names

/-!
# Operands

The rules for compound expressions see their parts as operands: a part can be checked for its
own type, or confirmed against a type that is expected of it.
-/

namespace StaticTyping

/-- A part of an expression: how it is checked, and how it is confirmed against a type. -/
structure Operand where
  check : CheckM Typed.Expr
  confirm : Ty → CheckM Typed.Expr

/-- An argument of a call, with its name if it has one. -/
structure Argument where
  name : Option Ident
  value : Operand

namespace CheckM

def adopted? (e : Source.Expr) (expected : Ty) : Option Typed.Expr :=
  match e.kind, expected with
  | .list [], .list _ => some ⟨.list [], expected, e.span⟩
  | .map [], .map _ _ => some ⟨.map [], expected, e.span⟩
  | _, _ => none

def adoptOr (e : Source.Expr) (check : CheckM Typed.Expr) (expected : Ty) : CheckM Typed.Expr :=
  match adopted? e expected with
  | some literal => pure literal
  | none => check

def confirm (e : Source.Expr) (check : CheckM Typed.Expr) (expected : Ty) : CheckM Typed.Expr := do
  let typed ← adoptOr e check expected
  let ok ← accepts expected typed.ty
  require ok (.unexpectedType expected typed.ty) e.line
  pure typed

end CheckM

def Operand.ofExpr (e : Source.Expr) (check : CheckM Typed.Expr) : Operand :=
  ⟨check, CheckM.confirm e check⟩

end StaticTyping
