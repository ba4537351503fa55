import Mathlib.Data.List.Forall2
import StaticTyping.Proofs.Typing

/-!
# Typed trees and the source trees they stand for

A typed tree has the shape of the source tree it was made from: the same forms at the same spans,
with the same names, operators and literals, and with the parts in the same order.  Only the
arguments of a call are put in the order of the parameters, with defaults filled in; a variable
without a value gets the one its type starts with; and the local name of an import, as the object
of a member, stands at the span of its identifier.

A test for an interface and the list of interfaces of a class hold the interface itself.  Its name
is the one that is written, unless a variable of that name stands for it.
-/

namespace StaticTyping

def Ty.ReadAs (written ty : Ty) : Prop :=
  ∃ look, written.resolve look = .ok ty

def Ty.IsResult (written : Option Ty) (ty : Ty) : Prop :=
  match written with
  | some w => w.ReadAs ty
  | none => ty = .nil

def Ident.Names (vars : String → Bool) (name : Ident) (i : InterfaceTy) : Prop :=
  i.name = name.name ∨ vars name.name

structure Typed.Arg where
  name : Option Ident
  value : Typed.Expr

namespace Typed.Arg

def IsFor (a : Typed.Arg) (p : Param) : Prop :=
  a.name.map Ident.name = some p.name

/--
Values for parameters, in their order, from named arguments.  A parameter takes the argument of
its name; if there is none, it takes its default, or an empty list if it is variadic.  In the end
no argument is left.
-/
inductive Seated (span : Span) : List Param → List Typed.Arg → List Typed.Expr → Prop where
  | nil : Seated span [] [] []
  | given {p ps before a after vs} : a.IsFor p → Seated span ps (before ++ after) vs →
      Seated span (p :: ps) (before ++ a :: after) (a.value :: vs)
  | default {p ps args v vs} : (∀ a ∈ args, ¬a.IsFor p) → p.default = some v →
      Seated span ps args vs → Seated span (p :: ps) args (v :: vs)
  | empty {p ps args vs} : (∀ a ∈ args, ¬a.IsFor p) → p.default = none → p.variadic →
      Seated span ps args vs → Seated span (p :: ps) args (⟨.list [], p.bodyTy, span⟩ :: vs)

inductive Arranged (span : Span) (sig : Signature) : List Typed.Arg → List Typed.Expr → Prop where
  | positional {args} : (∀ a ∈ args, a.name = none) → sig.restParam? = none →
      args.length = sig.params.length → Arranged span sig args (args.map value)
  | packed {fixed rest p} : (∀ a ∈ fixed ++ rest, a.name = none) → sig.restParam? = some p →
      fixed.length + 1 = sig.params.length → Arranged span sig (fixed ++ rest)
        (fixed.map value ++ [⟨.list (rest.map value), p.bodyTy, span⟩])
  | named {args vs} : (∀ a ∈ args, a.name.isSome) → Seated span sig.params args vs →
      Arranged span sig args vs

end Typed.Arg

mutual

inductive Source.Expr.Elaborates (vars : String → Bool) : Source.Expr → Typed.Expr → Prop where
  | intro {k k' ty span} : Source.ExprKind.Elaborates vars k k' →
      Source.Expr.Elaborates vars ⟨k, span⟩ ⟨k', ty, span⟩

inductive Source.ExprKind.Elaborates (vars : String → Bool) :
    Source.ExprKind → Typed.ExprKind → Prop where
  | int {v} : Source.ExprKind.Elaborates vars (.int v) (.int v)
  | float {bits} : Source.ExprKind.Elaborates vars (.float bits) (.float bits)
  | string {s} : Source.ExprKind.Elaborates vars (.string s) (.string s)
  | char {c} : Source.ExprKind.Elaborates vars (.char c) (.char c)
  | bool {b} : Source.ExprKind.Elaborates vars (.bool b) (.bool b)
  | nil : Source.ExprKind.Elaborates vars .nil .nil
  | list {items items'} : List.Forall₂ (Source.Expr.Elaborates vars) items items' →
      Source.ExprKind.Elaborates vars (.list items) (.list items')
  | map {entries entries'} : List.Forall₂ (Source.Entry.Elaborates vars) entries entries' →
      Source.ExprKind.Elaborates vars (.map entries) (.map entries')
  | var {name} : Source.ExprKind.Elaborates vars (.var name) (.var name)
  | this : Source.ExprKind.Elaborates vars .this .this
  | assign {name value value'} : Source.Expr.Elaborates vars value value' →
      Source.ExprKind.Elaborates vars (.assign name value) (.assign name value')
  | increment {e e'} : Source.Expr.Elaborates vars e e' →
      Source.ExprKind.Elaborates vars (.increment e) (.increment e')
  | decrement {e e'} : Source.Expr.Elaborates vars e e' →
      Source.ExprKind.Elaborates vars (.decrement e) (.decrement e')
  | binary {left left' op right right'} : Source.Expr.Elaborates vars left left' →
      Source.Expr.Elaborates vars right right' →
      Source.ExprKind.Elaborates vars (.binary left op right) (.binary left' op right')
  | logical {left left' op right right'} : Source.Expr.Elaborates vars left left' →
      Source.Expr.Elaborates vars right right' →
      Source.ExprKind.Elaborates vars (.logical left op right) (.logical left' op right')
  | unary {op e e'} : Source.Expr.Elaborates vars e e' →
      Source.ExprKind.Elaborates vars (.unary op e) (.unary op e')
  | group {e e'} : Source.Expr.Elaborates vars e e' →
      Source.ExprKind.Elaborates vars (.group e) (.group e')
  | is {value value' name i} : Source.Expr.Elaborates vars value value' → name.Names vars i →
      Source.ExprKind.Elaborates vars (.is value name) (.is value' i)
  | call {callee args callSpan callee' values} :
      Source.Expr.Calls vars callee args callSpan callee' values →
      Source.ExprKind.Elaborates vars (.call callee args callSpan) (.call callee' values)
  | get {object object' name access} : Source.Expr.Elaborates vars object object' →
      Source.ExprKind.Elaborates vars (.get object name) (.get object' name access)
  | getImported {var span m name} : Source.ExprKind.Elaborates vars (.get ⟨.var var, span⟩ name)
      (.get ⟨.var var, .moduleTy m, var.span⟩ name (.member var.name))
  | set {object object' name value value'} : Source.Expr.Elaborates vars object object' →
      Source.Expr.Elaborates vars value value' →
      Source.ExprKind.Elaborates vars (.set object name value) (.set object' name value')
  | setImported {var span m name value value'} : Source.Expr.Elaborates vars value value' →
      Source.ExprKind.Elaborates vars (.set ⟨.var var, span⟩ name value)
        (.set ⟨.var var, .moduleTy m, var.span⟩ name value')
  | index {object object' index index'} : Source.Expr.Elaborates vars object object' →
      Source.Expr.Elaborates vars index index' →
      Source.ExprKind.Elaborates vars (.index object index) (.index object' index')
  | slice {object object' lower lower' upper upper'} :
      Source.Expr.Elaborates vars object object' → Source.Expr.Elaborates vars lower lower' →
      Source.Expr.Elaborates vars upper upper' →
      Source.ExprKind.Elaborates vars (.slice object lower upper) (.slice object' lower' upper')
  | block {b b'} : Source.Block.Elaborates vars b b' →
      Source.ExprKind.Elaborates vars (.block b) (.block b')
  | cond {condition condition' thenBranch thenBranch' otherwise otherwise'} :
      Source.Expr.Elaborates vars condition condition' →
      Source.Block.Elaborates vars thenBranch thenBranch' →
      Option.Rel (Source.Expr.Elaborates vars) otherwise otherwise' →
      Source.ExprKind.Elaborates vars (.cond condition thenBranch otherwise)
        (.cond condition' thenBranch' otherwise')
  | lambda {ps params ret ty body body'} : List.Forall₂ (Source.Param.Elaborates vars) ps params →
      Ty.IsResult ret ty → Source.Block.Elaborates vars body body' →
      Source.ExprKind.Elaborates vars (.lambda ps ret body) (.lambda params ty body')

inductive Source.Entry.Elaborates (vars : String → Bool) : Source.Entry → Typed.Entry → Prop where
  | intro {key key' value value'} : Source.Expr.Elaborates vars key key' →
      Source.Expr.Elaborates vars value value' →
      Source.Entry.Elaborates vars ⟨key, value⟩ ⟨key', value'⟩

inductive Source.Arg.Elaborates (vars : String → Bool) : Source.Arg → Typed.Arg → Prop where
  | intro {name value value'} : Source.Expr.Elaborates vars value value' →
      Source.Arg.Elaborates vars ⟨name, value⟩ ⟨name, value'⟩

inductive Source.Expr.Calls (vars : String → Bool) :
    Source.Expr → List Source.Arg → Span → Typed.Expr → List Typed.Expr → Prop where
  | intro {callee args span callee' sig expected given values} :
      Source.Expr.Elaborates vars callee callee' → callee'.ty.callSignature? = some sig →
      callee'.Expects sig expected → List.Forall₂ (Source.Arg.Elaborates vars) args given →
      Typed.Arg.Arranged span expected given values →
      Source.Expr.Calls vars callee args span callee' values

inductive Source.Param.Elaborates (vars : String → Bool) :
    Source.Param → StaticTyping.Param → Prop where
  | intro {name ty ty' variadic default default'} : Ty.ReadAs ty ty' →
      Option.Rel (Source.Expr.Elaborates vars) default default' →
      Source.Param.Elaborates vars ⟨name, ty, variadic, default⟩ ⟨name.name, ty', variadic, default'⟩

inductive Source.Head.Elaborates (vars : String → Bool) : Source.Head → NamedFunction → Prop where
  | intro {name visibility ps params ret ty} :
      List.Forall₂ (Source.Param.Elaborates vars) ps params → Ty.IsResult ret ty →
      Source.Head.Elaborates vars ⟨name, visibility, ps, ret⟩ ⟨name.name, visibility, ⟨params, ty⟩⟩

inductive Source.Block.Elaborates (vars : String → Bool) : Source.Block → Typed.Block → Prop where
  | intro {stmts stmts' ty span} : List.Forall₂ (Source.Stmt.Elaborates vars) stmts stmts' →
      Source.Block.Elaborates vars ⟨stmts, span⟩ ⟨stmts', ty, span⟩

inductive Source.Method.Elaborates (vars : String → Bool) : Source.Method → Typed.Function → Prop where
  | intro {head sig body body' span} : Source.Head.Elaborates vars head sig →
      Source.Block.Elaborates vars body body' →
      Source.Method.Elaborates vars ⟨head, body, span⟩ ⟨head.name, sig, body'⟩

inductive Source.Requirement.Elaborates (vars : String → Bool) :
    Source.Requirement → NamedFunction → Prop where
  | intro {head sig span} : Source.Head.Elaborates vars head sig →
      Source.Requirement.Elaborates vars ⟨head, span⟩ sig

inductive Source.Stmt.Elaborates (vars : String → Bool) : Source.Stmt → Typed.Stmt → Prop where
  | intro {k k' span} : Source.StmtKind.Elaborates vars span k k' →
      Source.Stmt.Elaborates vars ⟨k, span⟩ ⟨k', span⟩

inductive Source.StmtKind.Elaborates (vars : String → Bool) :
    Span → Source.StmtKind → Typed.StmtKind → Prop where
  | defer {span callee args callSpan callee' values} :
      Source.Expr.Calls vars callee args callSpan callee' values →
      Source.StmtKind.Elaborates vars span (.defer callee args callSpan) (.defer callee' values)
  | expr {span e e'} : Source.Expr.Elaborates vars e e' →
      Source.StmtKind.Elaborates vars span (.expr e) (.expr e')
  | forLoop {span init init' condition condition' increment increment' body body'} :
      Option.Rel (Source.Stmt.Elaborates vars) init init' →
      Option.Rel (Source.Expr.Elaborates vars) condition condition' →
      Option.Rel (Source.Expr.Elaborates vars) increment increment' →
      List.Forall₂ (Source.Stmt.Elaborates vars) body body' →
      Source.StmtKind.Elaborates vars span (.forLoop init condition increment body)
        (.forLoop init' condition' increment' body')
  | forEach {span name iterable iterable' body body'} :
      Source.Expr.Elaborates vars iterable iterable' →
      List.Forall₂ (Source.Stmt.Elaborates vars) body body' →
      Source.StmtKind.Elaborates vars span (.forEach name iterable body)
        (.forEach name iterable' body')
  | whileLoop {span condition condition' body body'} :
      Source.Expr.Elaborates vars condition condition' →
      List.Forall₂ (Source.Stmt.Elaborates vars) body body' →
      Source.StmtKind.Elaborates vars span (.whileLoop condition body) (.whileLoop condition' body')
  | function {span head sig body body'} : Source.Head.Elaborates vars head sig →
      Source.Block.Elaborates vars body body' →
      Source.StmtKind.Elaborates vars span (.function head body) (.function ⟨head.name, sig, body'⟩)
  | binding {span name isMutable written e ty value} : Source.Expr.Elaborates vars e value →
      (∀ w, written = some w → Ty.ReadAs w ty) → (written = none → value.ty = ty) →
      Source.StmtKind.Elaborates vars span (.binding ⟨name, isMutable, written, some e⟩)
        (.binding name isMutable written.isSome ty value)
  | bindingInitial {span name isMutable written ty value} : Ty.ReadAs written ty →
      ty.initial? span = some value →
      Source.StmtKind.Elaborates vars span (.binding ⟨name, isMutable, some written, none⟩)
        (.binding name isMutable true ty value)
  | moduleName {span name} :
      Source.StmtKind.Elaborates vars span (.moduleName name) (.moduleName name)
  | ret {span value value'} : Option.Rel (Source.Expr.Elaborates vars) value value' →
      Source.StmtKind.Elaborates vars span (.ret value) (.ret value')
  | yield {span e e'} : Source.Expr.Elaborates vars e e' →
      Source.StmtKind.Elaborates vars span (.yield e) (.yield e')
  | classDecl {span name visibility ps params ms methods names is} :
      List.Forall₂ (Source.Param.Elaborates vars) ps params →
      List.Forall₂ (Source.Method.Elaborates vars) ms methods →
      List.Forall₂ (Ident.Names vars) names is →
      Source.StmtKind.Elaborates vars span (.classDecl ⟨name, visibility, ps, ms, names⟩)
        (.classDecl name ⟨name.name, params, methods.map Typed.Function.sig, is, visibility⟩ methods)
  | interfaceDecl {span name visibility rs methods} :
      List.Forall₂ (Source.Requirement.Elaborates vars) rs methods →
      Source.StmtKind.Elaborates vars span (.interfaceDecl ⟨name, visibility, rs⟩)
        (.interfaceDecl ⟨name.name, methods, visibility⟩)
  | importOne {span package alias?} : Source.StmtKind.Elaborates vars span
      (.importOne package alias?)
      (.importOne ⟨package.name, Source.Import.space ⟨package, alias?, span⟩⟩)
  | importMany {span imports} : Source.StmtKind.Elaborates vars span (.importMany imports)
      (.importMany (imports.map fun i => ⟨i.package.name, i.space⟩))
  | comment {span text} : Source.StmtKind.Elaborates vars span (.comment text) (.comment text)
  | continueLoop {span} : Source.StmtKind.Elaborates vars span .continueLoop .continueLoop
  | breakLoop {span} : Source.StmtKind.Elaborates vars span .breakLoop .breakLoop

end

/-- A file and the typed file that stands for it: one typed statement for each statement. -/
structure Source.File.Elaborates (vars : String → Bool) (file : Source.File) (typed : Typed.File) :
    Prop where
  path : typed.path = file.path
  name : Checker.moduleName? file.stmts = some typed.name
  stmts : List.Forall₂ (Source.Stmt.Elaborates vars) file.stmts typed.stmts

end StaticTyping
