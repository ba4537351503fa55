import StaticTyping.Proofs.Relation

/-!
# Identity of types

Identity looks at a part of a type only: of a class, interface or module at its name, of a
parameter at its type and its variadic mark.  What it looks at is the shape of the type, again a
type, and two types are the same exactly if they have one shape.
-/

namespace StaticTyping

mutual

/-- A type with nothing left but what identity looks at. -/
def Ty.shape : Ty → Ty
  | .list elem => .list elem.shape
  | .map key value => .map key.shape value.shape
  | .tuple items => .tuple (Ty.shapeAll items)
  | .named ⟨name, _, sig⟩ => .named ⟨name, .isPublic, sig.shape⟩
  | .function sig => .function sig.shape
  | .classTy c => .classTy (.forward c.name .isPublic)
  | .interfaceTy i => .interfaceTy (.forward i.name .isPublic)
  | .moduleTy m => .moduleTy ⟨m.name, [], [], []⟩
  | t => t
termination_by structural t => t

def Ty.shapeAll : List Ty → List Ty
  | [] => []
  | t :: ts => t.shape :: Ty.shapeAll ts
termination_by structural ts => ts

def Signature.shape : Signature → Signature
  | ⟨params, ret⟩ => ⟨Param.shapeAll params, ret.shape⟩
termination_by structural s => s

def Param.shapeAll : List Param → List Param
  | [] => []
  | ⟨_, ty, variadic, _⟩ :: ps => ⟨"", ty.shape, variadic, none⟩ :: Param.shapeAll ps
termination_by structural ps => ps

end

@[simp] theorem Ty.shape_named (f : NamedFunction) :
    (Ty.named f).shape = .named ⟨f.name, .isPublic, f.sig.shape⟩ := by
  rcases f with ⟨name, visibility, sig⟩
  rfl

@[simp] theorem Param.shapeAll_cons (p : Param) (ps : List Param) :
    Param.shapeAll (p :: ps) = ⟨"", p.ty.shape, p.variadic, none⟩ :: Param.shapeAll ps := by
  rcases p with ⟨name, ty, variadic, default⟩
  rfl

mutual

theorem Ty.same_iff_shape_eq : ∀ a b : Ty, a.same b = true ↔ a.shape = b.shape
  | .int, b | .float, b | .string, b | .bool, b | .char, b | .nil, b | .any, b | .noValue, b
  | .error, b | .unknown _, b | .classTy _, b | .interfaceTy _, b | .moduleTy _, b => by
      cases b <;> simp [Ty.same, Ty.shape, ClassTy.forward, InterfaceTy.forward]
  | .list a, b => by
      cases b with
      | list b => simp [Ty.same, Ty.shape, Ty.same_iff_shape_eq a b]
      | _ => simp [Ty.same, Ty.shape]
  | .map key value, b => by
      cases b with
      | map key' value' =>
          simp [Ty.same, Ty.shape, Ty.same_iff_shape_eq key key',
            Ty.same_iff_shape_eq value value']
      | _ => simp [Ty.same, Ty.shape]
  | .tuple as, b => by
      cases b with
      | tuple bs => simp [Ty.same, Ty.shape, Ty.sameAll_iff_shape_eq as bs]
      | _ => simp [Ty.same, Ty.shape]
  | .named ⟨name, _, s⟩, b => by
      cases b with
      | named f =>
          rcases f with ⟨name', _, t⟩
          simp [Ty.same, Ty.shape, Signature.same_iff_shape_eq s t]
      | _ => simp [Ty.same, Ty.shape]
  | .function s, b => by
      cases b with
      | function t => simp [Ty.same, Ty.shape, Signature.same_iff_shape_eq s t]
      | _ => simp [Ty.same, Ty.shape]
termination_by structural a => a

theorem Ty.sameAll_iff_shape_eq :
    ∀ as bs : List Ty, Ty.sameAll as bs = true ↔ Ty.shapeAll as = Ty.shapeAll bs
  | [], [] | [], _ :: _ | _ :: _, [] => by simp [Ty.sameAll, Ty.shapeAll]
  | a :: as, b :: bs => by
      simp [Ty.sameAll, Ty.shapeAll, Ty.same_iff_shape_eq a b, Ty.sameAll_iff_shape_eq as bs]
termination_by structural as => as

theorem Signature.same_iff_shape_eq : ∀ s t : Signature, s.same t = true ↔ s.shape = t.shape
  | ⟨ps, a⟩, ⟨qs, b⟩ => by
      simp [Signature.same, Signature.shape, Param.sameAll_iff_shape_eq ps qs,
        Ty.same_iff_shape_eq a b]
termination_by structural s => s

theorem Param.sameAll_iff_shape_eq :
    ∀ ps qs : List Param, Param.sameAll ps qs = true ↔ Param.shapeAll ps = Param.shapeAll qs
  | [], [] | [], _ :: _ | _ :: _, [] => by simp [Param.sameAll, Param.shapeAll]
  | ⟨_, a, v, _⟩ :: ps, ⟨_, b, w, _⟩ :: qs => by
      simp [Param.sameAll, Param.shapeAll, Ty.same_iff_shape_eq a b,
        Param.sameAll_iff_shape_eq ps qs, and_assoc, and_left_comm]
termination_by structural ps => ps

end

theorem Ty.same_symm {a b : Ty} (h : a.same b = true) : b.same a = true :=
  (Ty.same_iff_shape_eq b a).mpr ((Ty.same_iff_shape_eq a b).mp h).symm

theorem Ty.same_trans {a b c : Ty} (h : a.same b = true) (h' : b.same c = true) :
    a.same c = true :=
  (Ty.same_iff_shape_eq a c).mpr
    (((Ty.same_iff_shape_eq a b).mp h).trans ((Ty.same_iff_shape_eq b c).mp h'))

theorem Signature.same_symm {s t : Signature} (h : s.same t = true) : t.same s = true :=
  (Signature.same_iff_shape_eq t s).mpr ((Signature.same_iff_shape_eq s t).mp h).symm

theorem Signature.same_trans {s t u : Signature} (h : s.same t = true) (h' : t.same u = true) :
    s.same u = true :=
  (Signature.same_iff_shape_eq s u).mpr
    (((Signature.same_iff_shape_eq s t).mp h).trans ((Signature.same_iff_shape_eq t u).mp h'))

/-- Identity is an equivalence, on types of any depth and on signatures: it is that of having one
shape. -/
theorem Ty.same_equivalence :
    Equivalence (fun a b : Ty => a.same b = true) ∧
      Equivalence (fun s t : Signature => s.same t = true) ∧
      ∀ a b : Ty, a.same b = true ↔ a.shape = b.shape := by
  refine ⟨?_, ?_, Ty.same_iff_shape_eq⟩
  · exact ⟨Ty.same_refl, Ty.same_symm, Ty.same_trans⟩
  · exact ⟨Signature.same_refl, Signature.same_symm, Signature.same_trans⟩

end StaticTyping
