import StaticTyping.Ty.Basic

/-!
# Identity and acceptance of types

Two types are the same if they are built alike; classes, interfaces and modules go by their
names.  A type accepts another if a value of the second may stand where the first is expected:
`any` accepts everything, an interface accepts each class that satisfies it, lists and maps are
accepted elementwise, and a function type accepts named functions of its signature.
-/

namespace StaticTyping

mutual

/-- Whether two types are the same.  Classes, interfaces and modules are compared by name. -/
def Ty.same : Ty → Ty → Bool
  | .int, .int => true
  | .float, .float => true
  | .string, .string => true
  | .bool, .bool => true
  | .char, .char => true
  | .nil, .nil => true
  | .any, .any => true
  | .noValue, .noValue => true
  | .error, .error => true
  | .unknown a, .unknown b => a == b
  | .list a, .list b => Ty.same a b
  | .map k v, .map k' v' => Ty.same k k' && Ty.same v v'
  | .tuple as, .tuple bs => Ty.sameAll as bs
  | .named ⟨m, _, s⟩, .named ⟨n, _, t⟩ => m == n && Signature.same s t
  | .function s, .function t => Signature.same s t
  | .classTy c, .classTy d => c.name == d.name
  | .interfaceTy i, .interfaceTy j => i.name == j.name
  | .moduleTy m, .moduleTy n => m.name == n.name
  | _, _ => false
termination_by structural a => a

def Ty.sameAll : List Ty → List Ty → Bool
  | [], [] => true
  | a :: as, b :: bs => Ty.same a b && Ty.sameAll as bs
  | _, _ => false
termination_by structural as => as

/-- Whether two signatures agree in parameter types, variadic marks and result. -/
def Signature.same : Signature → Signature → Bool
  | ⟨ps, r⟩, ⟨qs, t⟩ => Param.sameAll ps qs && Ty.same r t
termination_by structural s => s

def Param.sameAll : List Param → List Param → Bool
  | [], [] => true
  | ⟨_, a, v, _⟩ :: ps, ⟨_, b, w, _⟩ :: qs => v == w && Ty.same a b && Param.sameAll ps qs
  | _, _ => false
termination_by structural ps => ps

end

namespace ClassTy

def provides (c : ClassTy) (required : NamedFunction) : Bool :=
  c.methods.any fun m =>
    m.visibility == .isPublic && m.name == required.name && m.sig.same required.sig

def unprovided? (c : ClassTy) (i : InterfaceTy) : Option NamedFunction :=
  i.methods.find? fun required => !c.provides required

def satisfies (c : ClassTy) (i : InterfaceTy) : Bool :=
  (c.unprovided? i).isNone

end ClassTy

/-- Whether a value of the second type may stand where the first is expected. -/
def Ty.accepts : Ty → Ty → Bool
  | .any, _ => true
  | .interfaceTy i, .classTy c => c.satisfies i
  | .list a, .list b => Ty.accepts a b
  | .map k v, .map k' v' => Ty.accepts k k' && Ty.accepts v v'
  | .function s, .named f => s.same f.sig
  | a, b => a.same b
termination_by structural a => a

end StaticTyping
