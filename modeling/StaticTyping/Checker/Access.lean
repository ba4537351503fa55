import StaticTyping.Checker.Arguments
import StaticTyping.Checker.Imports

/-!
# Members and calls

A member is looked for in an import if the object is its local name, and otherwise by the type of
the object: in the present form of a class or interface, in a module, or among the methods that a
standard package has for a builtin type.  Such a method takes the object as its first argument.
-/

namespace StaticTyping

structure Member where
  object : Typed.Expr
  access : Access
  ty : Ty

namespace CheckM

def importMember (var name : Ident) (scope : Scope) : CheckM Member := do
  let ty ← orFail (scope.get? name.name) (.noAttribute var.name name.name) name.line
  pure ⟨⟨.var var, .moduleTy (scope.toModule var.name), var.span⟩, .member var.name, ty⟩

def missing (object : Typed.Expr) (name : Ident) : Cause :=
  .noAttribute object.ty.text name.name

def valueMember (object : Typed.Expr) (name : Ident) : CheckM Member :=
  match object.ty with
  | .classTy c => do
      let c ← currentClass c
      let ty ← orFail (c.member? name.name) (missing object name) name.line
      pure ⟨object, .field, ty⟩
  | .interfaceTy i => do
      let i ← currentInterface i
      let f ← orFail (i.method? name.name) (missing object name) name.line
      pure ⟨object, .field, .named f⟩
  | .moduleTy m => do
      let ty ← orFail (m.member? name.name) (missing object name) name.line
      pure ⟨object, .member m.name, ty⟩
  | other =>
      match other.builtinPackage? with
      | some (package, localName) => do
          importStandard package localName
          let scope ← imported? localName
          let ty ← orFail (scope.bind (·.get? name.name)) (missing object name) name.line
          pure ⟨object, .builtin localName, ty⟩
      | none => fail (.notGettable object.ty name.name) name.line

def importNamed? (e : Source.Expr) : CheckM (Option (Ident × Scope)) :=
  match e.kind with
  | .var var => do
      let scope ← imported? var.name
      pure (scope.map fun scope => (var, scope))
  | _ => pure none

def member (e : Source.Expr) (check : CheckM Typed.Expr) (name : Ident) : CheckM Member := do
  let found ← importNamed? e
  match found with
  | some (var, scope) => importMember var name scope
  | none => do
      let object ← check
      valueMember object name

def settableMember (e : Source.Expr) (check : CheckM Typed.Expr) (name : Ident) : CheckM Member :=
  mapCause
    (fun
      | .notGettable found member => .notSettable found member
      | cause => cause)
    (member e check name)

def calleeName (e : Source.Expr) : String :=
  match e.kind with
  | .var name => name.name
  | .get _ name => name.name
  | _ => "fn"

def receiver? (callee : Typed.Expr) : Option Typed.Expr :=
  match callee.kind with
  | .get object _ (.builtin _) => some object
  | _ => none

def dropReceiver (callee : String) (sig : Signature) (object : Typed.Expr) (argCount : Nat)
    (line : UInt32) : CheckM Signature :=
  match sig.params with
  | [] => fail (.argumentCount callee 0 (argCount + 1)) line
  | p :: ps => do
      require (p.bodyTy.accepts object.ty) (.unexpectedType p.bodyTy object.ty) line
      pure ⟨ps, sig.ret⟩

def argumentSignature (callee : String) (sig : Signature) (f : Typed.Expr) (argCount : Nat)
    (line : UInt32) : CheckM Signature :=
  match receiver? f with
  | some object => dropReceiver callee sig object argCount line
  | none => pure sig

/-- A checked call: the callee, one argument for each parameter, and the type of the result. -/
structure Call where
  callee : Typed.Expr
  args : List Typed.Expr
  ty : Ty

/-- A call. -/
def call (e : Source.Expr) (check : CheckM Typed.Expr) (args : List Argument) (span : Span) :
    CheckM Call := do
  let callee ← check
  let sig ← orFail callee.ty.callSignature? (.notCallable callee.ty) span.line
  let sig ← argumentSignature (calleeName e) sig callee args.length span.line
  let values ← arrange (calleeName e) sig args span
  pure ⟨callee, values, sig.ret⟩

end CheckM
end StaticTyping
