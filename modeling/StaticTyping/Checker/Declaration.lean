import StaticTyping.Checker.Operand

/-!
# Rules for declarations

Signatures of functions, classes and interfaces, and the declaration of variables, from the
checks of their parts.
-/

namespace StaticTyping
namespace CheckM

def defaultValue (name : Ident) (bodyTy : Ty) (e : Source.Expr) (value : Operand) :
    CheckM Typed.Expr := do
  require e.isLiteral (.defaultNotLiteral name.name) name.line
  value.confirm bodyTy

def param (name : Ident) (ty : Ty) (variadic : Bool) (default? : Option (Source.Expr × Operand)) :
    CheckM Param := do
  let ty ← resolveTy ty name.line
  let p : Param := ⟨name.name, ty, variadic, none⟩
  match default? with
  | none => pure p
  | some (e, value) => do
      let value ← defaultValue name p.bodyTy e value
      pure { p with default := some value }

def resultTy (ret : Option Ty) (line : UInt32) : CheckM Ty :=
  match ret with
  | some ty => resolveTy ty line
  | none => pure .nil

def signature (params : List (CheckM Param)) (ret : Option Ty) (line : UInt32) :
    CheckM Signature := do
  let params ← collect params
  let ret ← resultTy ret line
  pure ⟨params, ret⟩

def implemented (name : Ident) : CheckM InterfaceTy := do
  let ty ← valueOf name.name name.line
  match ty with
  | .interfaceTy i => pure i
  | _ => fail (.implementsNonInterface name.name) name.line

def classHead (name : Ident) (visibility : Visibility) (params : List (CheckM Param))
    (methods : List (CheckM NamedFunction)) (implements : List Ident) : CheckM ClassTy := do
  let params ← collect params
  let methods ← collect methods
  let implements ← collect (implements.map implemented)
  pure ⟨name.name, params, methods, implements, visibility⟩

def interfaceHead (name : Ident) (visibility : Visibility)
    (methods : List (CheckM NamedFunction)) : CheckM InterfaceTy := do
  let methods ← collect methods
  pure ⟨name.name, methods, visibility⟩

def interfaceBindings (i : InterfaceTy) : List (String × Ty) :=
  (i.name, .interfaceTy i) :: i.methods.map fun f => (f.name, .named f)

def interfaceDecl (sig : CheckM InterfaceTy) (span : Span) : CheckM Typed.Stmt := do
  let i ← sig
  declareAll (interfaceBindings i)
  pure ⟨.interfaceDecl i, span⟩

def initialValue (name : Ident) (ty : Ty) (init : Option Operand) (span : Span) :
    CheckM Typed.Expr :=
  match init with
  | some value => value.confirm ty
  | none => orFail (ty.initial? span) (.notInitialized name.name ty) span.line

def bindingValue (name : Ident) (written : Option Ty) (init : Option Operand) (span : Span) :
    CheckM (Ty × Typed.Expr) :=
  match written, init with
  | some ty, init => do
      let ty ← resolveTy ty span.line
      let value ← initialValue name ty init span
      pure (ty, value)
  | none, some value => do
      let value ← value.check
      pure (value.ty, value)
  | none, none => fail (.notInitialized name.name .noValue) span.line

def binding (name : Ident) (isMutable : Bool) (written : Option Ty) (init : Option Operand)
    (span : Span) : CheckM Typed.Stmt :=
  inStmt .binding do
    let bound ← bindingValue name written init span
    declare name.name bound.1
    pure ⟨.binding name isMutable written.isSome bound.1 bound.2, span⟩

/-- The body of a function, in a scope with its parameters, whose value the result type has to
accept. -/
def functionBody (sig : Signature) (body : CheckM Typed.Block) (line : UInt32) :
    CheckM Typed.Block :=
  inStmt .function <| inScope do
    declareAll (sig.params.map fun p => (p.name, p.bodyTy))
    let body ← body
    require (sig.ret.accepts body.ty) (.typeMismatch sig.ret body.ty) line
    pure body

def functionOf (name : Ident) (body : CheckM Typed.Block) (line : UInt32) (sig : NamedFunction) :
    CheckM Typed.Function := do
  let body ← functionBody sig.sig body line
  pure ⟨name, sig, body⟩

/-- The declaration of a function.  Its name is bound before the body is checked. -/
def functionDecl (name : Ident) (sig : CheckM NamedFunction) (body : CheckM Typed.Block)
    (span : Span) : CheckM Typed.Stmt := do
  let sig ← sig
  declare name.name (.named sig)
  let f ← functionOf name body span.line sig
  pure ⟨.function f, span⟩

def requireInterfaces (c : ClassTy) (line : UInt32) : List InterfaceTy → CheckM Unit
  | [] => pure ()
  | i :: rest =>
      match c.unprovided? i with
      | some f => fail (.methodMissing c.name i.name f.name) line
      | none => requireInterfaces c line rest

def classDecl (name : Ident) (sig : CheckM ClassTy)
    (methods : List (NamedFunction → CheckM Typed.Function)) (span : Span) :
    CheckM Typed.Stmt := do
  let sig ← sig
  declare name.name (.classTy sig)
  let methods ← inStmt .classDecl <| inScope <| inClass sig <|
    collect (List.zipWith (fun check f => check f) methods sig.methods)
  requireInterfaces sig span.line sig.implements
  pure ⟨.classDecl name sig methods, span⟩

end CheckM
end StaticTyping
