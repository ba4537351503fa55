import StaticTyping.Ty.Basic

/-!
# The written form of types

Types as reports show them: `[T]`, `{K: V}`, `(A, B)`, `fn f(A, ...B) -> R`.  Classes and
interfaces are shown by name.
-/

namespace StaticTyping

mutual

/-- The written form of a type. -/
def Ty.text : Ty → String
  | .int => "Int"
  | .float => "Float"
  | .string => "String"
  | .bool => "Bool"
  | .char => "Char"
  | .nil => "Nil"
  | .any => "Any"
  | .noValue => "None"
  | .error => "Error"
  | .unknown name => name
  | .list elem => "[" ++ Ty.text elem ++ "]"
  | .map key value => "\x7b" ++ Ty.text key ++ ": " ++ Ty.text value ++ "\x7d"
  | .tuple items => "(" ++ ", ".intercalate (Ty.texts items) ++ ")"
  | .named ⟨name, _, ⟨params, ret⟩⟩ =>
      "fn " ++ name ++ "(" ++ ", ".intercalate (Param.texts params) ++ ") -> " ++ Ty.text ret
  | .function sig => Signature.text sig
  | .classTy c => c.name
  | .interfaceTy i => i.name
  | .moduleTy m => "module " ++ m.name
termination_by structural t => t

def Ty.texts : List Ty → List String
  | [] => []
  | t :: ts => Ty.text t :: Ty.texts ts
termination_by structural ts => ts

def Signature.text : Signature → String
  | ⟨params, ret⟩ => "fn(" ++ ", ".intercalate (Param.texts params) ++ ") -> " ++ Ty.text ret
termination_by structural s => s

def Param.texts : List Param → List String
  | [] => []
  | ⟨_, t, variadic, _⟩ :: ps =>
      (if variadic then "..." ++ Ty.text t else Ty.text t) :: Param.texts ps
termination_by structural ps => ps

end

end StaticTyping
