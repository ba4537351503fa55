import StaticTyping.Ty.Relation

/-!
# Every type is the same as itself and accepts itself
-/

namespace StaticTyping

mutual

theorem Ty.same_refl : ∀ t : Ty, t.same t = true
  | .int | .float | .string | .bool | .char | .nil | .any | .noValue | .error => rfl
  | .unknown name => beq_self_eq_true name
  | .list elem => Ty.same_refl elem
  | .map key value => Bool.and_eq_true_iff.mpr ⟨Ty.same_refl key, Ty.same_refl value⟩
  | .tuple items => Ty.sameAll_refl items
  | .named ⟨name, _, sig⟩ =>
      Bool.and_eq_true_iff.mpr ⟨beq_self_eq_true name, Signature.same_refl sig⟩
  | .function sig => Signature.same_refl sig
  | .classTy c => beq_self_eq_true c.name
  | .interfaceTy i => beq_self_eq_true i.name
  | .moduleTy m => beq_self_eq_true m.name
termination_by structural t => t

theorem Ty.sameAll_refl : ∀ ts : List Ty, Ty.sameAll ts ts = true
  | [] => rfl
  | t :: ts => Bool.and_eq_true_iff.mpr ⟨Ty.same_refl t, Ty.sameAll_refl ts⟩
termination_by structural ts => ts

theorem Signature.same_refl : ∀ s : Signature, s.same s = true
  | ⟨params, ret⟩ => Bool.and_eq_true_iff.mpr ⟨Param.sameAll_refl params, Ty.same_refl ret⟩
termination_by structural s => s

theorem Param.sameAll_refl : ∀ ps : List Param, Param.sameAll ps ps = true
  | [] => rfl
  | ⟨_, ty, variadic, _⟩ :: ps => by
      have hhead : (variadic == variadic && ty.same ty) = true :=
        Bool.and_eq_true_iff.mpr ⟨beq_self_eq_true variadic, Ty.same_refl ty⟩
      exact Bool.and_eq_true_iff.mpr ⟨hhead, Param.sameAll_refl ps⟩
termination_by structural ps => ps

end

theorem Ty.accepts_refl : ∀ t : Ty, t.accepts t = true
  | .any => rfl
  | .list elem => Ty.accepts_refl elem
  | .map key value => Bool.and_eq_true_iff.mpr ⟨Ty.accepts_refl key, Ty.accepts_refl value⟩
  | .int | .float | .string | .bool | .char | .nil | .noValue | .error => rfl
  | .unknown name => Ty.same_refl (.unknown name)
  | .tuple items => Ty.same_refl (.tuple items)
  | .named f => Ty.same_refl (.named f)
  | .function sig => Ty.same_refl (.function sig)
  | .classTy c => Ty.same_refl (.classTy c)
  | .interfaceTy i => Ty.same_refl (.interfaceTy i)
  | .moduleTy m => Ty.same_refl (.moduleTy m)
termination_by structural t => t

end StaticTyping
