import Mathlib.Logic.Basic
import StaticTyping.Checker.File

/-!
# Trees without comments

Comments are statements, and they can stand wherever statements do: in a file, in blocks, in the
bodies of functions, methods and loops.  Blocks occur inside expressions, so they also occur inside
default values, and thereby in types.  Source trees and typed trees are stripped of all of them at
once; `cut` says whether to do so or to leave everything as it is.  Typed trees may also keep those
in the types they carry.
-/

namespace StaticTyping

/-!
# Source trees
-/

namespace Source

def Stmt.isComment : Stmt → Bool
  | ⟨.comment _, _⟩ => true
  | _ => false

def Stmt.gives : Stmt → Bool
  | ⟨.ret (some _), _⟩ | ⟨.yield _, _⟩ => true
  | _ => false

def Block.closes (b : Block) : Bool :=
  b.stmts.getLast?.all (!·.isComment) ||
    (b.stmts.filter (!·.isComment)).getLast?.all (!·.gives)

variable (cut : Bool)

mutual

def Expr.strip : Expr → Expr
  | ⟨kind, span⟩ => ⟨kind.strip, span⟩
termination_by structural e => e

def ExprKind.strip : ExprKind → ExprKind
  | .int v => .int v
  | .float bits => .float bits
  | .string s => .string s
  | .char c => .char c
  | .bool b => .bool b
  | .nil => .nil
  | .list items => .list (Expr.stripAll items)
  | .map es => .map (Entry.stripAll es)
  | .var name => .var name
  | .this => .this
  | .assign name value => .assign name value.strip
  | .increment e => .increment e.strip
  | .decrement e => .decrement e.strip
  | .binary left op right => .binary left.strip op right.strip
  | .logical left op right => .logical left.strip op right.strip
  | .unary op e => .unary op e.strip
  | .group e => .group e.strip
  | .is value interface => .is value.strip interface
  | .call callee args callSpan => .call callee.strip (Arg.stripAll args) callSpan
  | .get object name => .get object.strip name
  | .set object name value => .set object.strip name value.strip
  | .index object index => .index object.strip index.strip
  | .slice object lower upper => .slice object.strip lower.strip upper.strip
  | .block b => .block b.strip
  | .cond condition thenBranch otherwise =>
      .cond condition.strip thenBranch.strip (Expr.stripOption otherwise)
  | .lambda ps ret body => .lambda (Param.stripAll ps) ret body.strip
termination_by structural k => k

def Expr.stripAll : List Expr → List Expr
  | [] => []
  | e :: es => e.strip :: Expr.stripAll es
termination_by structural es => es

def Entry.stripAll : List Entry → List Entry
  | [] => []
  | ⟨key, value⟩ :: es => ⟨key.strip, value.strip⟩ :: Entry.stripAll es
termination_by structural es => es

def Arg.stripAll : List Arg → List Arg
  | [] => []
  | ⟨name, value⟩ :: args => ⟨name, value.strip⟩ :: Arg.stripAll args
termination_by structural args => args

def Expr.stripOption : Option Expr → Option Expr
  | none => none
  | some e => some e.strip
termination_by structural e => e

def Param.stripAll : List Param → List Param
  | [] => []
  | ⟨name, ty, variadic, default⟩ :: ps =>
      ⟨name, ty, variadic, Expr.stripOption default⟩ :: Param.stripAll ps
termination_by structural ps => ps

def Head.strip : Head → Head
  | ⟨name, visibility, ps, ret⟩ => ⟨name, visibility, Param.stripAll ps, ret⟩
termination_by structural h => h

def Block.strip : Block → Block
  | ⟨ss, span⟩ => ⟨Stmt.stripAll ss, span⟩
termination_by structural b => b

def Method.stripAll : List Method → List Method
  | [] => []
  | ⟨h, body, span⟩ :: ms => ⟨h.strip, body.strip, span⟩ :: Method.stripAll ms
termination_by structural ms => ms

def Requirement.stripAll : List Requirement → List Requirement
  | [] => []
  | ⟨h, span⟩ :: rs => ⟨h.strip, span⟩ :: Requirement.stripAll rs
termination_by structural rs => rs

def ClassDecl.strip : ClassDecl → ClassDecl
  | ⟨name, visibility, ps, ms, implements⟩ =>
      ⟨name, visibility, Param.stripAll ps, Method.stripAll ms, implements⟩
termination_by structural d => d

def InterfaceDecl.strip : InterfaceDecl → InterfaceDecl
  | ⟨name, visibility, rs⟩ => ⟨name, visibility, Requirement.stripAll rs⟩
termination_by structural d => d

def Binding.strip : Binding → Binding
  | ⟨name, isMutable, written, init⟩ => ⟨name, isMutable, written, Expr.stripOption init⟩
termination_by structural d => d

def Stmt.strip : Stmt → Stmt
  | ⟨kind, span⟩ => ⟨kind.strip, span⟩
termination_by structural s => s

def Stmt.stripOption : Option Stmt → Option Stmt
  | none => none
  | some s => if cut && s.isComment then none else some s.strip
termination_by structural s => s

def Stmt.stripAll : List Stmt → List Stmt
  | [] => []
  | s :: ss => if cut && s.isComment then Stmt.stripAll ss else s.strip :: Stmt.stripAll ss
termination_by structural ss => ss

def StmtKind.strip : StmtKind → StmtKind
  | .defer callee args callSpan => .defer callee.strip (Arg.stripAll args) callSpan
  | .expr value => .expr value.strip
  | .forLoop init condition increment body =>
      .forLoop (Stmt.stripOption init) (Expr.stripOption condition) (Expr.stripOption increment)
        (Stmt.stripAll body)
  | .forEach name iterable body => .forEach name iterable.strip (Stmt.stripAll body)
  | .whileLoop condition body => .whileLoop condition.strip (Stmt.stripAll body)
  | .function h body => .function h.strip body.strip
  | .binding d => .binding d.strip
  | .moduleName name => .moduleName name
  | .ret value => .ret (Expr.stripOption value)
  | .yield value => .yield value.strip
  | .classDecl d => .classDecl d.strip
  | .interfaceDecl d => .interfaceDecl d.strip
  | .importOne package alias? => .importOne package alias?
  | .importMany imports => .importMany imports
  | .comment text => .comment text
  | .continueLoop => .continueLoop
  | .breakLoop => .breakLoop
termination_by structural k => k

end

/-- A file without the comments in it. -/
def File.strip (file : File) : File :=
  ⟨file.path, Stmt.stripAll cut file.stmts⟩

mutual

theorem Expr.strip_false : ∀ e : Expr, e.strip false = e
  | ⟨kind, span⟩ => by rw [Expr.strip, kind.strip_false]
termination_by structural e => e

theorem ExprKind.strip_false : ∀ k : ExprKind, k.strip false = k
  | .int _ | .float _ | .string _ | .char _ | .bool _ | .nil | .var _ | .this => rfl
  | .list items => by rw [ExprKind.strip, Expr.stripAll_false items]
  | .map es => by rw [ExprKind.strip, Entry.stripAll_false es]
  | .assign name value => by rw [ExprKind.strip, value.strip_false]
  | .increment e => by rw [ExprKind.strip, e.strip_false]
  | .decrement e => by rw [ExprKind.strip, e.strip_false]
  | .binary left op right => by rw [ExprKind.strip, left.strip_false, right.strip_false]
  | .logical left op right => by rw [ExprKind.strip, left.strip_false, right.strip_false]
  | .unary op e => by rw [ExprKind.strip, e.strip_false]
  | .group e => by rw [ExprKind.strip, e.strip_false]
  | .is value interface => by rw [ExprKind.strip, value.strip_false]
  | .call callee args callSpan => by
      rw [ExprKind.strip, callee.strip_false, Arg.stripAll_false args]
  | .get object name => by rw [ExprKind.strip, object.strip_false]
  | .set object name value => by rw [ExprKind.strip, object.strip_false, value.strip_false]
  | .index object index => by rw [ExprKind.strip, object.strip_false, index.strip_false]
  | .slice object lower upper => by
      rw [ExprKind.strip, object.strip_false, lower.strip_false, upper.strip_false]
  | .block b => by rw [ExprKind.strip, b.strip_false]
  | .cond condition thenBranch otherwise => by
      rw [ExprKind.strip, condition.strip_false, thenBranch.strip_false,
        Expr.stripOption_false otherwise]
  | .lambda ps ret body => by rw [ExprKind.strip, Param.stripAll_false ps, body.strip_false]
termination_by structural k => k

theorem Expr.stripAll_false : ∀ es : List Expr, Expr.stripAll false es = es
  | [] => rfl
  | e :: es => by rw [Expr.stripAll, e.strip_false, Expr.stripAll_false es]
termination_by structural es => es

theorem Entry.stripAll_false : ∀ es : List Entry, Entry.stripAll false es = es
  | [] => rfl
  | ⟨key, value⟩ :: es => by
      rw [Entry.stripAll, key.strip_false, value.strip_false, Entry.stripAll_false es]
termination_by structural es => es

theorem Arg.stripAll_false : ∀ args : List Arg, Arg.stripAll false args = args
  | [] => rfl
  | ⟨name, value⟩ :: args => by rw [Arg.stripAll, value.strip_false, Arg.stripAll_false args]
termination_by structural args => args

theorem Expr.stripOption_false : ∀ e : Option Expr, Expr.stripOption false e = e
  | none => rfl
  | some e => by rw [Expr.stripOption, e.strip_false]
termination_by structural e => e

theorem Param.stripAll_false : ∀ ps : List Param, Param.stripAll false ps = ps
  | [] => rfl
  | ⟨name, ty, variadic, default⟩ :: ps => by
      rw [Param.stripAll, Expr.stripOption_false default, Param.stripAll_false ps]
termination_by structural ps => ps

theorem Head.strip_false : ∀ h : Head, h.strip false = h
  | ⟨name, visibility, ps, ret⟩ => by rw [Head.strip, Param.stripAll_false ps]
termination_by structural h => h

theorem Block.strip_false : ∀ b : Block, b.strip false = b
  | ⟨ss, span⟩ => by rw [Block.strip, Stmt.stripAll_false ss]
termination_by structural b => b

theorem Method.stripAll_false : ∀ ms : List Method, Method.stripAll false ms = ms
  | [] => rfl
  | ⟨h, body, span⟩ :: ms => by
      rw [Method.stripAll, h.strip_false, body.strip_false, Method.stripAll_false ms]
termination_by structural ms => ms

theorem Requirement.stripAll_false : ∀ rs : List Requirement, Requirement.stripAll false rs = rs
  | [] => rfl
  | ⟨h, span⟩ :: rs => by rw [Requirement.stripAll, h.strip_false, Requirement.stripAll_false rs]
termination_by structural rs => rs

theorem ClassDecl.strip_false : ∀ d : ClassDecl, d.strip false = d
  | ⟨name, visibility, ps, ms, implements⟩ => by
      rw [ClassDecl.strip, Param.stripAll_false ps, Method.stripAll_false ms]
termination_by structural d => d

theorem InterfaceDecl.strip_false : ∀ d : InterfaceDecl, d.strip false = d
  | ⟨name, visibility, rs⟩ => by rw [InterfaceDecl.strip, Requirement.stripAll_false rs]
termination_by structural d => d

theorem Binding.strip_false : ∀ d : Binding, d.strip false = d
  | ⟨name, isMutable, written, init⟩ => by rw [Binding.strip, Expr.stripOption_false init]
termination_by structural d => d

theorem Stmt.strip_false : ∀ s : Stmt, s.strip false = s
  | ⟨kind, span⟩ => by rw [Stmt.strip, kind.strip_false]
termination_by structural s => s

theorem Stmt.stripOption_false : ∀ s : Option Stmt, Stmt.stripOption false s = s
  | none => rfl
  | some s => congrArg some s.strip_false
termination_by structural s => s

theorem Stmt.stripAll_false : ∀ ss : List Stmt, Stmt.stripAll false ss = ss
  | [] => rfl
  | s :: ss => by
      show s.strip false :: Stmt.stripAll false ss = s :: ss
      rw [s.strip_false, Stmt.stripAll_false ss]
termination_by structural ss => ss

theorem StmtKind.strip_false : ∀ k : StmtKind, k.strip false = k
  | .moduleName _ | .importOne _ _ | .importMany _ | .comment _ | .continueLoop | .breakLoop => rfl
  | .defer callee args callSpan => by
      rw [StmtKind.strip, callee.strip_false, Arg.stripAll_false args]
  | .expr value => by rw [StmtKind.strip, value.strip_false]
  | .forLoop init condition increment body => by
      rw [StmtKind.strip, Stmt.stripOption_false init, Expr.stripOption_false condition,
        Expr.stripOption_false increment, Stmt.stripAll_false body]
  | .forEach name iterable body => by
      rw [StmtKind.strip, iterable.strip_false, Stmt.stripAll_false body]
  | .whileLoop condition body => by
      rw [StmtKind.strip, condition.strip_false, Stmt.stripAll_false body]
  | .function h body => by rw [StmtKind.strip, h.strip_false, body.strip_false]
  | .binding d => by rw [StmtKind.strip, d.strip_false]
  | .ret value => by rw [StmtKind.strip, Expr.stripOption_false value]
  | .yield value => by rw [StmtKind.strip, value.strip_false]
  | .classDecl d => by rw [StmtKind.strip, d.strip_false]
  | .interfaceDecl d => by rw [StmtKind.strip, d.strip_false]
termination_by structural k => k

end

theorem File.strip_false (file : File) : file.strip false = file := by
  rw [File.strip, Stmt.stripAll_false]

end Source

/-!
# Types and typed trees
-/

def Typed.Stmt.isComment : Typed.Stmt → Bool
  | ⟨.comment _, _⟩ => true
  | _ => false

/-- What is left out: nothing, the comments in the blocks of a tree but not those in the types it
carries, or all comments. -/
inductive Cut where
  | nothing
  | bodies
  | everything

namespace Cut

def comments : Cut → Bool
  | .nothing => false
  | .bodies | .everything => true

def defaults : Cut → Cut
  | .nothing | .bodies => .nothing
  | .everything => .everything

end Cut

mutual

/-- A type without the comments in the default values in it. -/
def Ty.strip (cut : Cut) : Ty → Ty
  | .int => .int
  | .float => .float
  | .string => .string
  | .bool => .bool
  | .char => .char
  | .nil => .nil
  | .any => .any
  | .noValue => .noValue
  | .error => .error
  | .unknown name => .unknown name
  | .list elem => .list (elem.strip cut)
  | .map key value => .map (key.strip cut) (value.strip cut)
  | .tuple items => .tuple (Ty.stripAll cut items)
  | .named f => .named (f.strip cut)
  | .function sig => .function (sig.strip cut)
  | .classTy c => .classTy (c.strip cut)
  | .interfaceTy i => .interfaceTy (i.strip cut)
  | .moduleTy m => .moduleTy (m.strip cut)
termination_by structural t => t

def Ty.stripAll (cut : Cut) : List Ty → List Ty
  | [] => []
  | t :: ts => t.strip cut :: Ty.stripAll cut ts
termination_by structural ts => ts

def Param.strip (cut : Cut) : Param → Param
  | ⟨name, ty, variadic, default⟩ =>
      ⟨name, ty.strip cut, variadic, Typed.Expr.stripOption cut.defaults default⟩
termination_by structural p => p

def Param.stripAll (cut : Cut) : List Param → List Param
  | [] => []
  | p :: ps => p.strip cut :: Param.stripAll cut ps
termination_by structural ps => ps

def Signature.strip (cut : Cut) : Signature → Signature
  | ⟨params, ret⟩ => ⟨Param.stripAll cut params, ret.strip cut⟩
termination_by structural s => s

def NamedFunction.strip (cut : Cut) : NamedFunction → NamedFunction
  | ⟨name, visibility, sig⟩ => ⟨name, visibility, sig.strip cut⟩
termination_by structural f => f

def NamedFunction.stripAll (cut : Cut) : List NamedFunction → List NamedFunction
  | [] => []
  | f :: fs => f.strip cut :: NamedFunction.stripAll cut fs
termination_by structural fs => fs

def InterfaceTy.strip (cut : Cut) : InterfaceTy → InterfaceTy
  | ⟨name, methods, visibility⟩ => ⟨name, NamedFunction.stripAll cut methods, visibility⟩
termination_by structural i => i

def InterfaceTy.stripAll (cut : Cut) : List InterfaceTy → List InterfaceTy
  | [] => []
  | i :: is => i.strip cut :: InterfaceTy.stripAll cut is
termination_by structural is => is

def ClassTy.strip (cut : Cut) : ClassTy → ClassTy
  | ⟨name, params, methods, implements, visibility⟩ =>
      ⟨name, Param.stripAll cut params, NamedFunction.stripAll cut methods,
        InterfaceTy.stripAll cut implements, visibility⟩
termination_by structural c => c

def ClassTy.stripAll (cut : Cut) : List ClassTy → List ClassTy
  | [] => []
  | c :: cs => c.strip cut :: ClassTy.stripAll cut cs
termination_by structural cs => cs

def Variable.strip (cut : Cut) : Variable → Variable
  | ⟨name, ty⟩ => ⟨name, ty.strip cut⟩
termination_by structural v => v

def Variable.stripAll (cut : Cut) : List Variable → List Variable
  | [] => []
  | v :: vs => v.strip cut :: Variable.stripAll cut vs
termination_by structural vs => vs

def ModuleTy.strip (cut : Cut) : ModuleTy → ModuleTy
  | ⟨name, functions, classes, values⟩ =>
      ⟨name, NamedFunction.stripAll cut functions, ClassTy.stripAll cut classes,
        Variable.stripAll cut values⟩
termination_by structural m => m

def Typed.Expr.strip (cut : Cut) : Typed.Expr → Typed.Expr
  | ⟨kind, ty, span⟩ => ⟨kind.strip cut, ty.strip cut, span⟩
termination_by structural e => e

def Typed.Expr.stripAll (cut : Cut) : List Typed.Expr → List Typed.Expr
  | [] => []
  | e :: es => e.strip cut :: Typed.Expr.stripAll cut es
termination_by structural es => es

def Typed.Expr.stripOption (cut : Cut) : Option Typed.Expr → Option Typed.Expr
  | none => none
  | some e => some (e.strip cut)
termination_by structural e => e

def Typed.Entry.strip (cut : Cut) : Typed.Entry → Typed.Entry
  | ⟨key, value⟩ => ⟨key.strip cut, value.strip cut⟩
termination_by structural e => e

def Typed.Entry.stripAll (cut : Cut) : List Typed.Entry → List Typed.Entry
  | [] => []
  | e :: es => e.strip cut :: Typed.Entry.stripAll cut es
termination_by structural es => es

def Typed.ExprKind.strip (cut : Cut) : Typed.ExprKind → Typed.ExprKind
  | .int v => .int v
  | .float bits => .float bits
  | .string s => .string s
  | .char c => .char c
  | .bool b => .bool b
  | .nil => .nil
  | .list items => .list (Typed.Expr.stripAll cut items)
  | .map entries => .map (Typed.Entry.stripAll cut entries)
  | .var name => .var name
  | .this => .this
  | .assign name value => .assign name (value.strip cut)
  | .increment e => .increment (e.strip cut)
  | .decrement e => .decrement (e.strip cut)
  | .binary left op right => .binary (left.strip cut) op (right.strip cut)
  | .logical left op right => .logical (left.strip cut) op (right.strip cut)
  | .unary op e => .unary op (e.strip cut)
  | .group e => .group (e.strip cut)
  | .is value i => .is (value.strip cut) (i.strip cut)
  | .call callee args => .call (callee.strip cut) (Typed.Expr.stripAll cut args)
  | .get object name access => .get (object.strip cut) name access
  | .set object name value => .set (object.strip cut) name (value.strip cut)
  | .index object index => .index (object.strip cut) (index.strip cut)
  | .slice object lower upper => .slice (object.strip cut) (lower.strip cut) (upper.strip cut)
  | .block body => .block (body.strip cut)
  | .cond condition thenBranch otherwise =>
      .cond (condition.strip cut) (thenBranch.strip cut) (Typed.Expr.stripOption cut otherwise)
  | .lambda params ret body => .lambda (Param.stripAll cut params) (ret.strip cut) (body.strip cut)
termination_by structural k => k

def Typed.Block.strip (cut : Cut) : Typed.Block → Typed.Block
  | ⟨stmts, ty, span⟩ => ⟨Typed.Stmt.stripAll cut stmts, ty.strip cut, span⟩
termination_by structural b => b

def Typed.Function.strip (cut : Cut) : Typed.Function → Typed.Function
  | ⟨name, sig, body⟩ => ⟨name, sig.strip cut, body.strip cut⟩
termination_by structural f => f

def Typed.Function.stripAll (cut : Cut) : List Typed.Function → List Typed.Function
  | [] => []
  | f :: fs => f.strip cut :: Typed.Function.stripAll cut fs
termination_by structural fs => fs

def Typed.Stmt.strip (cut : Cut) : Typed.Stmt → Typed.Stmt
  | ⟨kind, span⟩ => ⟨kind.strip cut, span⟩
termination_by structural s => s

def Typed.Stmt.stripOption (cut : Cut) : Option Typed.Stmt → Option Typed.Stmt
  | none => none
  | some s => if cut.comments && s.isComment then none else some (s.strip cut)
termination_by structural s => s

def Typed.Stmt.stripAll (cut : Cut) : List Typed.Stmt → List Typed.Stmt
  | [] => []
  | s :: ss =>
      if cut.comments && s.isComment then Typed.Stmt.stripAll cut ss
      else s.strip cut :: Typed.Stmt.stripAll cut ss
termination_by structural ss => ss

def Typed.StmtKind.strip (cut : Cut) : Typed.StmtKind → Typed.StmtKind
  | .defer callee args => .defer (callee.strip cut) (Typed.Expr.stripAll cut args)
  | .expr e => .expr (e.strip cut)
  | .forLoop init condition increment body =>
      .forLoop (Typed.Stmt.stripOption cut init) (Typed.Expr.stripOption cut condition)
        (Typed.Expr.stripOption cut increment) (Typed.Stmt.stripAll cut body)
  | .forEach name iterable body => .forEach name (iterable.strip cut) (Typed.Stmt.stripAll cut body)
  | .whileLoop condition body => .whileLoop (condition.strip cut) (Typed.Stmt.stripAll cut body)
  | .function f => .function (f.strip cut)
  | .binding name isMutable annotated ty init =>
      .binding name isMutable annotated (ty.strip cut) (init.strip cut)
  | .moduleName name => .moduleName name
  | .ret value => .ret (Typed.Expr.stripOption cut value)
  | .yield e => .yield (e.strip cut)
  | .classDecl name sig methods =>
      .classDecl name (sig.strip cut) (Typed.Function.stripAll cut methods)
  | .interfaceDecl i => .interfaceDecl (i.strip cut)
  | .importOne target => .importOne target
  | .importMany targets => .importMany targets
  | .comment text => .comment text
  | .continueLoop => .continueLoop
  | .breakLoop => .breakLoop
termination_by structural k => k

end

/-- A typed file without the comments in it. -/
def Typed.File.strip (cut : Cut) (f : Typed.File) : Typed.File :=
  ⟨f.path, f.name, Typed.Stmt.stripAll cut f.stmts⟩

mutual

theorem Ty.strip_eq_self {cut : Cut} (h : cut.defaults = .nothing) :
    ∀ t : Ty, t.strip cut = t
  | .int | .float | .string | .bool | .char | .nil | .any | .noValue | .error | .unknown _ => rfl
  | .list elem => by rw [Ty.strip, elem.strip_eq_self h]
  | .map key value => by rw [Ty.strip, key.strip_eq_self h, value.strip_eq_self h]
  | .tuple items => by rw [Ty.strip, Ty.stripAll_eq_self h items]
  | .named f => by rw [Ty.strip, f.strip_eq_self h]
  | .function sig => by rw [Ty.strip, sig.strip_eq_self h]
  | .classTy c => by rw [Ty.strip, c.strip_eq_self h]
  | .interfaceTy i => by rw [Ty.strip, i.strip_eq_self h]
  | .moduleTy m => by rw [Ty.strip, m.strip_eq_self h]
termination_by structural t => t

theorem Ty.stripAll_eq_self {cut : Cut} (h : cut.defaults = .nothing) :
    ∀ ts : List Ty, Ty.stripAll cut ts = ts
  | [] => rfl
  | t :: ts => by rw [Ty.stripAll, t.strip_eq_self h, Ty.stripAll_eq_self h ts]
termination_by structural ts => ts

theorem Param.strip_eq_self {cut : Cut} (h : cut.defaults = .nothing) :
    ∀ p : Param, p.strip cut = p
  | ⟨name, ty, variadic, default⟩ => by
      rw [Param.strip, ty.strip_eq_self h, h, Typed.Expr.stripOption_nothing default]
termination_by structural p => p

theorem Param.stripAll_eq_self {cut : Cut} (h : cut.defaults = .nothing) :
    ∀ ps : List Param, Param.stripAll cut ps = ps
  | [] => rfl
  | p :: ps => by rw [Param.stripAll, p.strip_eq_self h, Param.stripAll_eq_self h ps]
termination_by structural ps => ps

theorem Signature.strip_eq_self {cut : Cut} (h : cut.defaults = .nothing) :
    ∀ sig : Signature, sig.strip cut = sig
  | ⟨params, ret⟩ => by rw [Signature.strip, Param.stripAll_eq_self h params, ret.strip_eq_self h]
termination_by structural s => s

theorem NamedFunction.strip_eq_self {cut : Cut} (h : cut.defaults = .nothing) :
    ∀ f : NamedFunction, f.strip cut = f
  | ⟨name, visibility, sig⟩ => by rw [NamedFunction.strip, sig.strip_eq_self h]
termination_by structural f => f

theorem NamedFunction.stripAll_eq_self {cut : Cut} (h : cut.defaults = .nothing) :
    ∀ fs : List NamedFunction, NamedFunction.stripAll cut fs = fs
  | [] => rfl
  | f :: fs => by
      rw [NamedFunction.stripAll, f.strip_eq_self h, NamedFunction.stripAll_eq_self h fs]
termination_by structural fs => fs

theorem InterfaceTy.strip_eq_self {cut : Cut} (h : cut.defaults = .nothing) :
    ∀ i : InterfaceTy, i.strip cut = i
  | ⟨name, methods, visibility⟩ => by
      rw [InterfaceTy.strip, NamedFunction.stripAll_eq_self h methods]
termination_by structural i => i

theorem InterfaceTy.stripAll_eq_self {cut : Cut} (h : cut.defaults = .nothing) :
    ∀ is : List InterfaceTy, InterfaceTy.stripAll cut is = is
  | [] => rfl
  | i :: is => by rw [InterfaceTy.stripAll, i.strip_eq_self h, InterfaceTy.stripAll_eq_self h is]
termination_by structural is => is

theorem ClassTy.strip_eq_self {cut : Cut} (h : cut.defaults = .nothing) :
    ∀ c : ClassTy, c.strip cut = c
  | ⟨name, params, methods, implements, visibility⟩ => by
      rw [ClassTy.strip, Param.stripAll_eq_self h params, NamedFunction.stripAll_eq_self h methods,
        InterfaceTy.stripAll_eq_self h implements]
termination_by structural c => c

theorem ClassTy.stripAll_eq_self {cut : Cut} (h : cut.defaults = .nothing) :
    ∀ cs : List ClassTy, ClassTy.stripAll cut cs = cs
  | [] => rfl
  | c :: cs => by rw [ClassTy.stripAll, c.strip_eq_self h, ClassTy.stripAll_eq_self h cs]
termination_by structural cs => cs

theorem Variable.strip_eq_self {cut : Cut} (h : cut.defaults = .nothing) :
    ∀ v : Variable, v.strip cut = v
  | ⟨name, ty⟩ => by rw [Variable.strip, ty.strip_eq_self h]
termination_by structural v => v

theorem Variable.stripAll_eq_self {cut : Cut} (h : cut.defaults = .nothing) :
    ∀ vs : List Variable, Variable.stripAll cut vs = vs
  | [] => rfl
  | v :: vs => by rw [Variable.stripAll, v.strip_eq_self h, Variable.stripAll_eq_self h vs]
termination_by structural vs => vs

theorem ModuleTy.strip_eq_self {cut : Cut} (h : cut.defaults = .nothing) :
    ∀ m : ModuleTy, m.strip cut = m
  | ⟨name, functions, classes, values⟩ => by
      rw [ModuleTy.strip, NamedFunction.stripAll_eq_self h functions,
        ClassTy.stripAll_eq_self h classes, Variable.stripAll_eq_self h values]
termination_by structural m => m

theorem Typed.Expr.strip_nothing : ∀ e : Typed.Expr, e.strip .nothing = e
  | ⟨kind, ty, span⟩ => by rw [Typed.Expr.strip, kind.strip_nothing, ty.strip_eq_self rfl]
termination_by structural e => e

theorem Typed.Expr.stripAll_nothing : ∀ es : List Typed.Expr, Typed.Expr.stripAll .nothing es = es
  | [] => rfl
  | e :: es => by rw [Typed.Expr.stripAll, e.strip_nothing, Typed.Expr.stripAll_nothing es]
termination_by structural es => es

theorem Typed.Expr.stripOption_nothing : ∀ e : Option Typed.Expr,
    Typed.Expr.stripOption .nothing e = e
  | none => rfl
  | some e => by rw [Typed.Expr.stripOption, e.strip_nothing]
termination_by structural e => e

theorem Typed.Entry.strip_nothing : ∀ e : Typed.Entry, e.strip .nothing = e
  | ⟨key, value⟩ => by rw [Typed.Entry.strip, key.strip_nothing, value.strip_nothing]
termination_by structural e => e

theorem Typed.Entry.stripAll_nothing : ∀ es : List Typed.Entry,
    Typed.Entry.stripAll .nothing es = es
  | [] => rfl
  | e :: es => by rw [Typed.Entry.stripAll, e.strip_nothing, Typed.Entry.stripAll_nothing es]
termination_by structural es => es

theorem Typed.ExprKind.strip_nothing : ∀ k : Typed.ExprKind, k.strip .nothing = k
  | .int _ | .float _ | .string _ | .char _ | .bool _ | .nil | .var _ | .this => rfl
  | .list items => by rw [Typed.ExprKind.strip, Typed.Expr.stripAll_nothing items]
  | .map entries => by rw [Typed.ExprKind.strip, Typed.Entry.stripAll_nothing entries]
  | .assign name value => by rw [Typed.ExprKind.strip, value.strip_nothing]
  | .increment e => by rw [Typed.ExprKind.strip, e.strip_nothing]
  | .decrement e => by rw [Typed.ExprKind.strip, e.strip_nothing]
  | .binary left op right => by rw [Typed.ExprKind.strip, left.strip_nothing, right.strip_nothing]
  | .logical left op right => by rw [Typed.ExprKind.strip, left.strip_nothing, right.strip_nothing]
  | .unary op e => by rw [Typed.ExprKind.strip, e.strip_nothing]
  | .group e => by rw [Typed.ExprKind.strip, e.strip_nothing]
  | .is value i => by rw [Typed.ExprKind.strip, value.strip_nothing, i.strip_eq_self rfl]
  | .call callee args => by
      rw [Typed.ExprKind.strip, callee.strip_nothing, Typed.Expr.stripAll_nothing args]
  | .get object name access => by rw [Typed.ExprKind.strip, object.strip_nothing]
  | .set object name value => by
      rw [Typed.ExprKind.strip, object.strip_nothing, value.strip_nothing]
  | .index object index => by rw [Typed.ExprKind.strip, object.strip_nothing, index.strip_nothing]
  | .slice object lower upper => by
      rw [Typed.ExprKind.strip, object.strip_nothing, lower.strip_nothing, upper.strip_nothing]
  | .block body => by rw [Typed.ExprKind.strip, body.strip_nothing]
  | .cond condition thenBranch otherwise => by
      rw [Typed.ExprKind.strip, condition.strip_nothing, thenBranch.strip_nothing,
        Typed.Expr.stripOption_nothing otherwise]
  | .lambda params ret body => by
      rw [Typed.ExprKind.strip, Param.stripAll_eq_self rfl params, ret.strip_eq_self rfl,
        body.strip_nothing]
termination_by structural k => k

theorem Typed.Block.strip_nothing : ∀ b : Typed.Block, b.strip .nothing = b
  | ⟨stmts, ty, span⟩ => by
      rw [Typed.Block.strip, Typed.Stmt.stripAll_nothing stmts, ty.strip_eq_self rfl]
termination_by structural b => b

theorem Typed.Function.strip_nothing : ∀ f : Typed.Function, f.strip .nothing = f
  | ⟨name, sig, body⟩ => by rw [Typed.Function.strip, sig.strip_eq_self rfl, body.strip_nothing]
termination_by structural f => f

theorem Typed.Function.stripAll_nothing : ∀ fs : List Typed.Function,
    Typed.Function.stripAll .nothing fs = fs
  | [] => rfl
  | f :: fs => by rw [Typed.Function.stripAll, f.strip_nothing, Typed.Function.stripAll_nothing fs]
termination_by structural fs => fs

theorem Typed.Stmt.strip_nothing : ∀ s : Typed.Stmt, s.strip .nothing = s
  | ⟨kind, span⟩ => by rw [Typed.Stmt.strip, kind.strip_nothing]
termination_by structural s => s

theorem Typed.Stmt.stripOption_nothing : ∀ s : Option Typed.Stmt,
    Typed.Stmt.stripOption .nothing s = s
  | none => rfl
  | some s => congrArg some s.strip_nothing
termination_by structural s => s

theorem Typed.Stmt.stripAll_nothing : ∀ ss : List Typed.Stmt, Typed.Stmt.stripAll .nothing ss = ss
  | [] => rfl
  | s :: ss => by
      show s.strip .nothing :: Typed.Stmt.stripAll .nothing ss = s :: ss
      rw [s.strip_nothing, Typed.Stmt.stripAll_nothing ss]
termination_by structural ss => ss

theorem Typed.StmtKind.strip_nothing : ∀ k : Typed.StmtKind, k.strip .nothing = k
  | .moduleName _ | .importOne _ | .importMany _ | .comment _ | .continueLoop | .breakLoop => rfl
  | .defer callee args => by
      rw [Typed.StmtKind.strip, callee.strip_nothing, Typed.Expr.stripAll_nothing args]
  | .expr e => by rw [Typed.StmtKind.strip, e.strip_nothing]
  | .forLoop init condition increment body => by
      rw [Typed.StmtKind.strip, Typed.Stmt.stripOption_nothing init,
        Typed.Expr.stripOption_nothing condition, Typed.Expr.stripOption_nothing increment,
        Typed.Stmt.stripAll_nothing body]
  | .forEach name iterable body => by
      rw [Typed.StmtKind.strip, iterable.strip_nothing, Typed.Stmt.stripAll_nothing body]
  | .whileLoop condition body => by
      rw [Typed.StmtKind.strip, condition.strip_nothing, Typed.Stmt.stripAll_nothing body]
  | .function f => by rw [Typed.StmtKind.strip, f.strip_nothing]
  | .binding name isMutable annotated ty init => by
      rw [Typed.StmtKind.strip, ty.strip_eq_self rfl, init.strip_nothing]
  | .ret value => by rw [Typed.StmtKind.strip, Typed.Expr.stripOption_nothing value]
  | .yield e => by rw [Typed.StmtKind.strip, e.strip_nothing]
  | .classDecl name sig methods => by
      rw [Typed.StmtKind.strip, sig.strip_eq_self rfl, Typed.Function.stripAll_nothing methods]
  | .interfaceDecl i => by rw [Typed.StmtKind.strip, i.strip_eq_self rfl]
termination_by structural k => k

end

theorem Typed.File.strip_nothing (f : Typed.File) : f.strip .nothing = f := by
  rw [Typed.File.strip, Typed.Stmt.stripAll_nothing]

theorem Ty.strip_nothing (t : Ty) : t.strip .nothing = t :=
  t.strip_eq_self rfl

theorem ClassTy.strip_nothing (c : ClassTy) : c.strip .nothing = c :=
  c.strip_eq_self rfl

theorem ModuleTy.strip_nothing (m : ModuleTy) : m.strip .nothing = m :=
  m.strip_eq_self rfl

theorem Typed.Stmt.isComment_strip (cut : Cut) (s : Typed.Stmt) :
    (s.strip cut).isComment = s.isComment := by
  rcases s with ⟨kind, span⟩
  cases kind <;> rfl

/-!
Where all comments have been left out, there are none left in blocks.
-/

mutual

theorem Typed.Expr.strip_twice : ∀ e : Typed.Expr,
    (e.strip .everything).strip .bodies = e.strip .everything
  | ⟨kind, ty, span⟩ => by
      rw [Typed.Expr.strip, Typed.Expr.strip, kind.strip_twice, Ty.strip_eq_self rfl]
termination_by structural e => e

theorem Typed.Expr.stripAll_twice : ∀ es : List Typed.Expr,
    Typed.Expr.stripAll .bodies (Typed.Expr.stripAll .everything es) =
      Typed.Expr.stripAll .everything es
  | [] => rfl
  | e :: es => by
      rw [Typed.Expr.stripAll, Typed.Expr.stripAll, e.strip_twice, Typed.Expr.stripAll_twice es]
termination_by structural es => es

theorem Typed.Expr.stripOption_twice : ∀ e : Option Typed.Expr,
    Typed.Expr.stripOption .bodies (Typed.Expr.stripOption .everything e) =
      Typed.Expr.stripOption .everything e
  | none => rfl
  | some e => congrArg some e.strip_twice
termination_by structural e => e

theorem Typed.Entry.stripAll_twice : ∀ es : List Typed.Entry,
    Typed.Entry.stripAll .bodies (Typed.Entry.stripAll .everything es) =
      Typed.Entry.stripAll .everything es
  | [] => rfl
  | ⟨key, value⟩ :: es => by
      rw [Typed.Entry.stripAll, Typed.Entry.stripAll, Typed.Entry.strip, Typed.Entry.strip,
        key.strip_twice, value.strip_twice, Typed.Entry.stripAll_twice es]
termination_by structural es => es

theorem Typed.ExprKind.strip_twice : ∀ k : Typed.ExprKind,
    (k.strip .everything).strip .bodies = k.strip .everything
  | .int _ | .float _ | .string _ | .char _ | .bool _ | .nil | .var _ | .this => rfl
  | .list items => congrArg Typed.ExprKind.list (Typed.Expr.stripAll_twice items)
  | .map entries => congrArg Typed.ExprKind.map (Typed.Entry.stripAll_twice entries)
  | .assign name value => congrArg (Typed.ExprKind.assign name) value.strip_twice
  | .increment e => congrArg Typed.ExprKind.increment e.strip_twice
  | .decrement e => congrArg Typed.ExprKind.decrement e.strip_twice
  | .binary left op right =>
      congrArg₂ (Typed.ExprKind.binary · op ·) left.strip_twice right.strip_twice
  | .logical left op right =>
      congrArg₂ (Typed.ExprKind.logical · op ·) left.strip_twice right.strip_twice
  | .unary op e => congrArg (Typed.ExprKind.unary op) e.strip_twice
  | .group e => congrArg Typed.ExprKind.group e.strip_twice
  | .is value i => congrArg₂ Typed.ExprKind.is value.strip_twice (InterfaceTy.strip_eq_self rfl _)
  | .call callee args =>
      congrArg₂ Typed.ExprKind.call callee.strip_twice (Typed.Expr.stripAll_twice args)
  | .get object name access => congrArg (Typed.ExprKind.get · name access) object.strip_twice
  | .set object name value =>
      congrArg₂ (Typed.ExprKind.set · name ·) object.strip_twice value.strip_twice
  | .index object index => congrArg₂ Typed.ExprKind.index object.strip_twice index.strip_twice
  | .slice object lower upper => by
      simp only [Typed.ExprKind.strip, object.strip_twice, lower.strip_twice, upper.strip_twice]
  | .block body => congrArg Typed.ExprKind.block body.strip_twice
  | .cond condition thenBranch otherwise => by
      simp only [Typed.ExprKind.strip, condition.strip_twice, thenBranch.strip_twice,
        Typed.Expr.stripOption_twice otherwise]
  | .lambda params ret body => by
      rw [Typed.ExprKind.strip, Typed.ExprKind.strip, Param.stripAll_eq_self rfl,
        Ty.strip_eq_self rfl, body.strip_twice]
termination_by structural k => k

theorem Typed.Block.strip_twice : ∀ b : Typed.Block,
    (b.strip .everything).strip .bodies = b.strip .everything
  | ⟨stmts, ty, span⟩ => by
      rw [Typed.Block.strip, Typed.Block.strip, Typed.Stmt.stripAll_twice stmts,
        Ty.strip_eq_self rfl]
termination_by structural b => b

theorem Typed.Function.strip_twice : ∀ f : Typed.Function,
    (f.strip .everything).strip .bodies = f.strip .everything
  | ⟨name, sig, body⟩ => by
      rw [Typed.Function.strip, Typed.Function.strip, NamedFunction.strip_eq_self rfl,
        body.strip_twice]
termination_by structural f => f

theorem Typed.Function.stripAll_twice : ∀ fs : List Typed.Function,
    Typed.Function.stripAll .bodies (Typed.Function.stripAll .everything fs) =
      Typed.Function.stripAll .everything fs
  | [] => rfl
  | f :: fs => by
      rw [Typed.Function.stripAll, Typed.Function.stripAll, f.strip_twice,
        Typed.Function.stripAll_twice fs]
termination_by structural fs => fs

theorem Typed.Stmt.strip_twice : ∀ s : Typed.Stmt,
    (s.strip .everything).strip .bodies = s.strip .everything
  | ⟨kind, span⟩ => congrArg (Typed.Stmt.mk · span) kind.strip_twice
termination_by structural s => s

theorem Typed.Stmt.stripOption_twice : ∀ s : Option Typed.Stmt,
    Typed.Stmt.stripOption .bodies (Typed.Stmt.stripOption .everything s) =
      Typed.Stmt.stripOption .everything s
  | none => rfl
  | some s => by
      have hs := s.strip_twice
      cases hcomment : s.isComment <;>
        simp [Typed.Stmt.stripOption, Cut.comments, hcomment, Typed.Stmt.isComment_strip, hs]
termination_by structural s => s

theorem Typed.Stmt.stripAll_twice : ∀ ss : List Typed.Stmt,
    Typed.Stmt.stripAll .bodies (Typed.Stmt.stripAll .everything ss) =
      Typed.Stmt.stripAll .everything ss
  | [] => rfl
  | s :: ss => by
      have hs := s.strip_twice
      have hss := Typed.Stmt.stripAll_twice ss
      cases hcomment : s.isComment <;>
        simp [Typed.Stmt.stripAll, Cut.comments, hcomment, Typed.Stmt.isComment_strip, hs, hss]
termination_by structural ss => ss

theorem Typed.StmtKind.strip_twice : ∀ k : Typed.StmtKind,
    (k.strip .everything).strip .bodies = k.strip .everything
  | .moduleName _ | .importOne _ | .importMany _ | .comment _ | .continueLoop | .breakLoop => rfl
  | .defer callee args =>
      congrArg₂ Typed.StmtKind.defer callee.strip_twice (Typed.Expr.stripAll_twice args)
  | .expr e => congrArg Typed.StmtKind.expr e.strip_twice
  | .forLoop init condition increment body => by
      simp only [Typed.StmtKind.strip, Typed.Stmt.stripOption_twice init,
        Typed.Expr.stripOption_twice condition, Typed.Expr.stripOption_twice increment,
        Typed.Stmt.stripAll_twice body]
  | .forEach name iterable body =>
      congrArg₂ (Typed.StmtKind.forEach name) iterable.strip_twice (Typed.Stmt.stripAll_twice body)
  | .whileLoop condition body =>
      congrArg₂ Typed.StmtKind.whileLoop condition.strip_twice (Typed.Stmt.stripAll_twice body)
  | .function f => congrArg Typed.StmtKind.function f.strip_twice
  | .binding name isMutable annotated ty init =>
      congrArg₂ (Typed.StmtKind.binding name isMutable annotated) (Ty.strip_eq_self rfl _)
        init.strip_twice
  | .ret value => congrArg Typed.StmtKind.ret (Typed.Expr.stripOption_twice value)
  | .yield e => congrArg Typed.StmtKind.yield e.strip_twice
  | .classDecl name sig methods =>
      congrArg₂ (Typed.StmtKind.classDecl name) (ClassTy.strip_eq_self rfl _)
        (Typed.Function.stripAll_twice methods)
  | .interfaceDecl i => congrArg Typed.StmtKind.interfaceDecl (InterfaceTy.strip_eq_self rfl _)
termination_by structural k => k

end

end StaticTyping
