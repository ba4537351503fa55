import StaticTyping.Checker.Monad
import StaticTyping.Ty.Capability
import StaticTyping.Ty.Relation

/-!
# Names

A plain name is looked up among the builtin functions and then in the module.  As a value it may
also be the local name of an import.  As a type it has to stand for a class or an interface, and
it may be dotted: then the part before the first dot names an import.
-/

namespace StaticTyping

def splitDot? (name : String) : Option (String × String) :=
  match name.toList.dropWhile (· != '.') with
  | [] => none
  | _ :: rest => some (String.ofList (name.toList.takeWhile (· != '.')), String.ofList rest)

def Ty.nominal? : Ty → Option Ty
  | .classTy c => some (.classTy c)
  | .interfaceTy i => some (.interfaceTy i)
  | _ => none

mutual

def Ty.resolve (look : String → Option Ty) : Ty → Except String Ty
  | .unknown name =>
      match look name with
      | some t => .ok t
      | none => .error name
  | .list elem => do
      let elem ← Ty.resolve look elem
      pure (.list elem)
  | .map key value => do
      let key ← Ty.resolve look key
      let value ← Ty.resolve look value
      pure (.map key value)
  | .tuple items => do
      let items ← Ty.resolveAll look items
      pure (.tuple items)
  | .function ⟨params, ret⟩ => do
      let params ← Param.resolveAll look params
      let ret ← Ty.resolve look ret
      pure (.function ⟨params, ret⟩)
  | t => .ok t
termination_by structural t => t

def Ty.resolveAll (look : String → Option Ty) : List Ty → Except String (List Ty)
  | [] => .ok []
  | t :: ts => do
      let t ← Ty.resolve look t
      let ts ← Ty.resolveAll look ts
      pure (t :: ts)
termination_by structural ts => ts

def Param.resolveAll (look : String → Option Ty) : List Param → Except String (List Param)
  | [] => .ok []
  | ⟨name, t, variadic, default⟩ :: ps => do
      let t ← Ty.resolve look t
      let ps ← Param.resolveAll look ps
      pure (⟨name, t, variadic, default⟩ :: ps)
termination_by structural ps => ps

end

namespace Env

/-- What a plain name is bound to. -/
def find? (env : Env) (t : SymbolTable) (name : String) : Option Ty :=
  match t.lookup? env.settings.preludeSpace name with
  | some ty => some ty
  | none => t.lookup? env.space name

/-- What the file has imported under a local name. -/
def imported? (env : Env) (t : SymbolTable) (localName : String) : Option Scope :=
  t.imported? env.file localName

def value? (env : Env) (t : SymbolTable) (name : String) : Option Ty :=
  match env.find? t name with
  | some ty => some ty
  | none => (env.imported? t name).map fun scope => .moduleTy (scope.toModule name)

def typeName? (env : Env) (t : SymbolTable) (name : String) : Option Ty :=
  match splitDot? name with
  | some (localName, member) =>
      (env.imported? t localName).bind fun scope => (scope.get? member).bind Ty.nominal?
  | none => (env.find? t name).bind Ty.nominal?

def currentClass (env : Env) (t : SymbolTable) (c : ClassTy) : ClassTy :=
  match t.lookup? env.space c.name with
  | some (.classTy current) => if current.name = c.name then current else c
  | _ => c

def currentInterface (env : Env) (t : SymbolTable) (i : InterfaceTy) : InterfaceTy :=
  match t.lookup? env.space i.name with
  | some (.interfaceTy current) => if current.name = i.name then current else i
  | _ => i

def accepts (env : Env) (t : SymbolTable) (expected found : Ty) : Bool :=
  match expected, found with
  | .interfaceTy i, .classTy c => (env.currentClass t c).satisfies (env.currentInterface t i)
  | expected, found => expected.accepts found

end Env

namespace CheckM

def valueOf (name : String) (line : UInt32) : CheckM Ty := do
  let ty? ← view fun env s => env.value? s.session.symbols name
  orFail ty? (.unknownVariable name) line

/-- A written type with every name in it looked up. -/
def resolveTy (ty : Ty) (line : UInt32) : CheckM Ty := do
  let r ← view fun env s => ty.resolve (env.typeName? s.session.symbols)
  match r with
  | .ok ty => pure ty
  | .error name => fail (.unknownVariable name) line

def currentClass (c : ClassTy) : CheckM ClassTy :=
  view fun env s => env.currentClass s.session.symbols c

def currentInterface (i : InterfaceTy) : CheckM InterfaceTy :=
  view fun env s => env.currentInterface s.session.symbols i

def imported? (localName : String) : CheckM (Option Scope) :=
  view fun env s => env.imported? s.session.symbols localName

def deferredTy (ty : Ty) (line : UInt32) : CheckM Ty :=
  match ty with
  | .unknown name => valueOf name line
  | ty => pure ty

def variableTy (name : Ident) : CheckM Ty := do
  let found ← valueOf name.name name.line
  let ty ← deferredTy found name.line
  require (!ty.hasUnknown) (.unknownVariable name.name) name.line
  pure ty

def accepts (expected found : Ty) : CheckM Bool :=
  view fun env s => env.accepts s.session.symbols expected found

end CheckM
end StaticTyping
