import Mathlib.Data.List.Forall2
import StaticTyping.Proofs.Comments.Trees

/-!
# What types are without comments

Comments stand in default values, and default values play no part in what a type accepts, which
members it has and what can be done with its values.
-/

namespace StaticTyping

variable (cut : Cut)

/-!
# Lists and fields
-/

theorem Param.stripAll_eq_map (ps : List Param) :
    Param.stripAll cut ps = ps.map (Param.strip cut) := by
  induction ps with
  | nil => rfl
  | cons p ps ih => exact congrArg (p.strip cut :: ·) ih

theorem NamedFunction.stripAll_eq_map (fs : List NamedFunction) :
    NamedFunction.stripAll cut fs = fs.map (NamedFunction.strip cut) := by
  induction fs with
  | nil => rfl
  | cons f fs ih => exact congrArg (f.strip cut :: ·) ih

theorem InterfaceTy.stripAll_eq_map (is : List InterfaceTy) :
    InterfaceTy.stripAll cut is = is.map (InterfaceTy.strip cut) := by
  induction is with
  | nil => rfl
  | cons i is ih => exact congrArg (i.strip cut :: ·) ih

theorem ClassTy.stripAll_eq_map (cs : List ClassTy) :
    ClassTy.stripAll cut cs = cs.map (ClassTy.strip cut) := by
  induction cs with
  | nil => rfl
  | cons c cs ih => exact congrArg (c.strip cut :: ·) ih

theorem Variable.stripAll_eq_map (vs : List Variable) :
    Variable.stripAll cut vs = vs.map (Variable.strip cut) := by
  induction vs with
  | nil => rfl
  | cons v vs ih => exact congrArg (v.strip cut :: ·) ih

theorem Typed.Expr.stripAll_eq_map (es : List Typed.Expr) :
    Typed.Expr.stripAll cut es = es.map (Typed.Expr.strip cut) := by
  induction es with
  | nil => rfl
  | cons e es ih => exact congrArg (e.strip cut :: ·) ih

theorem Typed.Entry.stripAll_eq_map (es : List Typed.Entry) :
    Typed.Entry.stripAll cut es = es.map (Typed.Entry.strip cut) := by
  induction es with
  | nil => rfl
  | cons e es ih => exact congrArg (e.strip cut :: ·) ih

theorem Typed.Function.stripAll_eq_map (fs : List Typed.Function) :
    Typed.Function.stripAll cut fs = fs.map (Typed.Function.strip cut) := by
  induction fs with
  | nil => rfl
  | cons f fs ih => exact congrArg (f.strip cut :: ·) ih

theorem Typed.Expr.stripOption_eq_map (e : Option Typed.Expr) :
    Typed.Expr.stripOption cut e = e.map (Typed.Expr.strip cut) := by
  cases e <;> rfl

section Fields

variable {cut}

@[simp] theorem Param.strip_name (p : Param) : (p.strip cut).name = p.name := by
  cases p
  rfl

@[simp] theorem Param.strip_ty (p : Param) : (p.strip cut).ty = p.ty.strip cut := by
  cases p
  rfl

@[simp] theorem Param.strip_variadic (p : Param) : (p.strip cut).variadic = p.variadic := by
  cases p
  rfl

@[simp] theorem Param.strip_default (p : Param) :
    (p.strip cut).default = p.default.map (Typed.Expr.strip cut.defaults) := by
  cases p
  exact Typed.Expr.stripOption_eq_map cut.defaults _

@[simp] theorem Signature.strip_params (sig : Signature) :
    (sig.strip cut).params = sig.params.map (Param.strip cut) := by
  cases sig
  exact Param.stripAll_eq_map cut _

@[simp] theorem Signature.strip_ret (sig : Signature) :
    (sig.strip cut).ret = sig.ret.strip cut := by
  cases sig
  rfl

@[simp] theorem NamedFunction.strip_name (f : NamedFunction) : (f.strip cut).name = f.name := by
  cases f
  rfl

@[simp] theorem NamedFunction.strip_visibility (f : NamedFunction) :
    (f.strip cut).visibility = f.visibility := by
  cases f
  rfl

@[simp] theorem NamedFunction.strip_sig (f : NamedFunction) :
    (f.strip cut).sig = f.sig.strip cut := by
  cases f
  rfl

@[simp] theorem InterfaceTy.strip_name (i : InterfaceTy) : (i.strip cut).name = i.name := by
  cases i
  rfl

@[simp] theorem InterfaceTy.strip_methods (i : InterfaceTy) :
    (i.strip cut).methods = i.methods.map (NamedFunction.strip cut) := by
  cases i
  exact NamedFunction.stripAll_eq_map cut _

@[simp] theorem ClassTy.strip_name (c : ClassTy) : (c.strip cut).name = c.name := by
  cases c
  rfl

@[simp] theorem ClassTy.strip_params (c : ClassTy) :
    (c.strip cut).params = c.params.map (Param.strip cut) := by
  cases c
  exact Param.stripAll_eq_map cut _

@[simp] theorem ClassTy.strip_methods (c : ClassTy) :
    (c.strip cut).methods = c.methods.map (NamedFunction.strip cut) := by
  cases c
  exact NamedFunction.stripAll_eq_map cut _

@[simp] theorem ClassTy.strip_implements (c : ClassTy) :
    (c.strip cut).implements = c.implements.map (InterfaceTy.strip cut) := by
  cases c
  exact InterfaceTy.stripAll_eq_map cut _

@[simp] theorem ClassTy.strip_visibility (c : ClassTy) :
    (c.strip cut).visibility = c.visibility := by
  cases c
  rfl

@[simp] theorem ModuleTy.strip_name (m : ModuleTy) : (m.strip cut).name = m.name := by
  cases m
  rfl

@[simp] theorem Typed.Expr.strip_ty (e : Typed.Expr) : (e.strip cut).ty = e.ty.strip cut := by
  cases e
  rfl

@[simp] theorem Typed.Expr.strip_span (e : Typed.Expr) : (e.strip cut).span = e.span := by
  cases e
  rfl

@[simp] theorem Typed.Block.strip_ty (b : Typed.Block) : (b.strip cut).ty = b.ty.strip cut := by
  cases b
  rfl

end Fields

/-!
# Identity and acceptance
-/

section Same

variable {cut} {cut' : Cut}

mutual

theorem Ty.same_strip : ∀ a b : Ty, (a.strip cut).same (b.strip cut') = a.same b
  | .list a, b => by
      cases b with
      | list b => exact a.same_strip b
      | _ => rfl
  | .map k v, b => by
      cases b with
      | map k' v' => exact congrArg₂ and (k.same_strip k') (v.same_strip v')
      | _ => rfl
  | .tuple as, b => by
      cases b with
      | tuple bs => exact Ty.sameAll_strip as bs
      | _ => rfl
  | .named ⟨m, _, s⟩, b => by
      cases b with
      | named g =>
          rcases g with ⟨n, _, t⟩
          exact congrArg (m == n && ·) (s.same_strip t)
      | _ => rfl
  | .function s, b => by
      cases b with
      | function t => exact s.same_strip t
      | _ => rfl
  | .classTy c, b => by
      cases b with
      | classTy d =>
          show ((c.strip cut).name == (d.strip cut').name) = (c.name == d.name)
          rw [c.strip_name, d.strip_name]
      | _ => rfl
  | .interfaceTy i, b => by
      cases b with
      | interfaceTy j =>
          show ((i.strip cut).name == (j.strip cut').name) = (i.name == j.name)
          rw [i.strip_name, j.strip_name]
      | _ => rfl
  | .moduleTy m, b => by
      cases b with
      | moduleTy n =>
          show ((m.strip cut).name == (n.strip cut').name) = (m.name == n.name)
          rw [m.strip_name, n.strip_name]
      | _ => rfl
  | .int, b | .float, b | .string, b | .bool, b | .char, b | .nil, b | .any, b | .noValue, b
  | .error, b | .unknown _, b => by
      cases b <;> rfl
termination_by structural a => a

theorem Ty.sameAll_strip : ∀ as bs : List Ty,
    Ty.sameAll (Ty.stripAll cut as) (Ty.stripAll cut' bs) = Ty.sameAll as bs
  | [], bs => by cases bs <;> rfl
  | a :: as, bs => by
      cases bs with
      | nil => rfl
      | cons b bs => exact congrArg₂ and (a.same_strip b) (Ty.sameAll_strip as bs)
termination_by structural as => as

theorem Signature.same_strip : ∀ s t : Signature, (s.strip cut).same (t.strip cut') = s.same t
  | ⟨ps, r⟩, ⟨qs, t⟩ => congrArg₂ and (Param.sameAll_strip ps qs) (r.same_strip t)
termination_by structural s => s

theorem Param.sameAll_strip : ∀ ps qs : List Param,
    Param.sameAll (Param.stripAll cut ps) (Param.stripAll cut' qs) = Param.sameAll ps qs
  | [], qs => by cases qs <;> rfl
  | ⟨_, a, v, _⟩ :: ps, qs => by
      cases qs with
      | nil => rfl
      | cons q qs =>
          rcases q with ⟨_, b, w, _⟩
          exact congrArg₂ and (congrArg (v == w && ·) (a.same_strip b)) (Param.sameAll_strip ps qs)
termination_by structural ps => ps

end

theorem ClassTy.provides_strip (c : ClassTy) (f : NamedFunction) :
    (c.strip cut).provides (f.strip cut') = c.provides f := by
  unfold provides
  rw [c.strip_methods, List.any_map]
  congr 1
  funext m
  simp only [Function.comp, NamedFunction.strip_visibility, NamedFunction.strip_name,
    NamedFunction.strip_sig, Signature.same_strip]

theorem ClassTy.unprovided?_strip (c : ClassTy) (i : InterfaceTy) :
    (c.strip cut).unprovided? (i.strip cut') =
      (c.unprovided? i).map (NamedFunction.strip cut') := by
  unfold unprovided?
  rw [i.strip_methods, List.find?_map]
  congr 1
  congr 1
  funext f
  exact congrArg not (c.provides_strip f)

theorem ClassTy.satisfies_strip (c : ClassTy) (i : InterfaceTy) :
    (c.strip cut).satisfies (i.strip cut') = c.satisfies i := by
  unfold satisfies
  rw [c.unprovided?_strip, Option.isNone_map]

theorem Ty.accepts_strip : ∀ a b : Ty, (a.strip cut).accepts (b.strip cut') = a.accepts b
  | .any, _ => rfl
  | .interfaceTy i, b => by
      cases b with
      | classTy c => exact c.satisfies_strip i
      | interfaceTy j => exact Ty.same_strip (.interfaceTy i) (.interfaceTy j)
      | _ => rfl
  | .list a, b => by
      cases b with
      | list b => exact a.accepts_strip b
      | _ => rfl
  | .map k v, b => by
      cases b with
      | map k' v' => exact congrArg₂ and (k.accepts_strip k') (v.accepts_strip v')
      | _ => rfl
  | .function s, b => by
      cases b with
      | named f =>
          show (s.strip cut).same (f.strip cut').sig = s.same f.sig
          rw [f.strip_sig, s.same_strip]
      | function t => exact Ty.same_strip (.function s) (.function t)
      | _ => rfl
  | .tuple as, b => Ty.same_strip (.tuple as) b
  | .named f, b => Ty.same_strip (.named f) b
  | .classTy c, b => Ty.same_strip (.classTy c) b
  | .moduleTy m, b => Ty.same_strip (.moduleTy m) b
  | .int, b | .float, b | .string, b | .bool, b | .char, b | .nil, b | .noValue, b
  | .error, b | .unknown _, b => by
      cases b <;> rfl

end Same

/-!
# Members and capabilities
-/

section Members

variable {cut}

@[simp] theorem Param.bodyTy_strip (p : Param) : (p.strip cut).bodyTy = p.bodyTy.strip cut := by
  rcases p with ⟨_, _, variadic, _⟩
  cases variadic <;> rfl

theorem Signature.restParam?_strip (sig : Signature) :
    (sig.strip cut).restParam? = sig.restParam?.map (Param.strip cut) := by
  unfold restParam?
  rw [sig.strip_params, List.getLast?_map, Option.filter_map]
  congr 2
  funext p
  exact p.strip_variadic

theorem Signature.isSome_restParam?_strip (sig : Signature) :
    (sig.strip cut).restParam?.isSome = sig.restParam?.isSome := by
  rw [sig.restParam?_strip, Option.isSome_map]

theorem Signature.fixedParams_strip (sig : Signature) :
    (sig.strip cut).fixedParams = sig.fixedParams.map (Param.strip cut) := by
  unfold fixedParams
  rw [sig.isSome_restParam?_strip, sig.strip_params]
  split
  · exact (List.map_dropLast ..).symm
  · rfl

theorem Signature.fits_strip (sig : Signature) (count : Nat) :
    (sig.strip cut).fits count = sig.fits count := by
  unfold fits
  rw [sig.isSome_restParam?_strip, sig.fixedParams_strip, List.length_map]

theorem ClassTy.method?_strip (c : ClassTy) (name : String) :
    (c.strip cut).method? name = (c.method? name).map (NamedFunction.strip cut) := by
  unfold method?
  rw [c.strip_methods, List.find?_map]
  congr 2
  funext f
  exact congrArg (· == name) f.strip_name

theorem ClassTy.member?_strip (c : ClassTy) (name : String) :
    (c.strip cut).member? name = (c.member? name).map (Ty.strip cut) := by
  have hfield : (c.strip cut).params.find? (·.name == name) =
      (c.params.find? (·.name == name)).map (Param.strip cut) := by
    rw [c.strip_params, List.find?_map]
    congr 2
    funext p
    exact congrArg (· == name) p.strip_name
  unfold member?
  rw [hfield]
  cases c.params.find? (·.name == name) with
  | some p => exact congrArg some p.bodyTy_strip
  | none =>
      show ((c.strip cut).method? name).map Ty.named = ((c.method? name).map Ty.named).map _
      rw [c.method?_strip, Option.map_map, Option.map_map]
      rfl

theorem InterfaceTy.method?_strip (i : InterfaceTy) (name : String) :
    (i.strip cut).method? name = (i.method? name).map (NamedFunction.strip cut) := by
  unfold method?
  rw [i.strip_methods, List.find?_map]
  congr 2
  funext f
  exact congrArg (· == name) f.strip_name

theorem ModuleTy.members_strip (m : ModuleTy) :
    (m.strip cut).members = m.members.map fun b => (b.1, b.2.strip cut) := by
  rcases m with ⟨name, functions, classes, values⟩
  show (NamedFunction.stripAll cut functions).map (fun f => (f.name, Ty.named f)) ++
      (ClassTy.stripAll cut classes).map (fun c => (c.name, Ty.classTy c)) ++
      (Variable.stripAll cut values).map (fun v => (v.name, v.ty)) = List.map _ (_ ++ _ ++ _)
  rw [NamedFunction.stripAll_eq_map, ClassTy.stripAll_eq_map, Variable.stripAll_eq_map]
  simp only [List.map_append, List.map_map]
  congr 2
  · congr 1
    funext f
    exact congrArg (·, Ty.named (f.strip cut)) f.strip_name
  · congr 1
    funext c
    exact congrArg (·, Ty.classTy (c.strip cut)) c.strip_name
  · funext v
    rcases v with ⟨_, _⟩
    rfl

theorem ModuleTy.member?_strip (m : ModuleTy) (name : String) :
    (m.strip cut).member? name = (m.member? name).map (Ty.strip cut) := by
  unfold member?
  rw [m.members_strip, List.find?_map, Option.map_map, Option.map_map]
  rfl

theorem ModuleTy.append_strip (m n : ModuleTy) :
    (m.strip cut).append (n.strip cut) = (m.append n).strip cut := by
  rcases m with ⟨_, _, _, _⟩
  rcases n with ⟨_, _, _, _⟩
  simp only [ModuleTy.strip, append, NamedFunction.stripAll_eq_map, ClassTy.stripAll_eq_map,
    Variable.stripAll_eq_map,
    List.map_append]

theorem Ty.isNumeric_strip (t : Ty) : (t.strip cut).isNumeric = t.isNumeric := by
  cases t <;> rfl

theorem Ty.isBool_strip (t : Ty) : (t.strip cut).isBool = t.isBool := by
  cases t <;> rfl

theorem Ty.builtinPackage?_strip (t : Ty) :
    (t.strip cut).builtinPackage? = t.builtinPackage? := by
  cases t <;> rfl

theorem Ty.indexTypes?_strip (t : Ty) :
    (t.strip cut).indexTypes? =
      t.indexTypes?.map fun types => (types.1.strip cut, types.2.strip cut) := by
  cases t <;> rfl

theorem Ty.sliceBound?_strip (t : Ty) :
    (t.strip cut).sliceBound? = t.sliceBound?.map (Ty.strip cut) := by
  cases t <;> rfl

theorem Ty.element?_strip (t : Ty) : (t.strip cut).element? = t.element?.map (Ty.strip cut) := by
  cases t <;> rfl

theorem Ty.initial?_strip (t : Ty) (span : Span) :
    (t.strip cut).initial? span = (t.initial? span).map (Typed.Expr.strip cut) := by
  cases t <;> rfl

theorem Ty.nominal?_strip (t : Ty) : (t.strip cut).nominal? = t.nominal?.map (Ty.strip cut) := by
  cases t <;> rfl

theorem Ty.callSignature?_strip (t : Ty) :
    (t.strip cut).callSignature? = t.callSignature?.map (Signature.strip cut) := by
  cases t with
  | named f => exact congrArg some f.strip_sig
  | classTy c =>
      rcases c with ⟨_, _, _, _, _⟩
      rfl
  | _ => rfl

mutual

theorem Ty.hasUnknown_strip : ∀ t : Ty, (t.strip cut).hasUnknown = t.hasUnknown
  | .list elem => elem.hasUnknown_strip
  | .map key value => congrArg₂ or key.hasUnknown_strip value.hasUnknown_strip
  | .tuple items => Ty.anyHasUnknown_strip items
  | .function ⟨params, ret⟩ =>
      congrArg₂ or ret.hasUnknown_strip (Ty.paramsHaveUnknown_strip params)
  | .int | .float | .string | .bool | .char | .nil | .any | .noValue | .error | .unknown _
  | .named _ | .classTy _ | .interfaceTy _ | .moduleTy _ => rfl
termination_by structural t => t

theorem Ty.anyHasUnknown_strip : ∀ ts : List Ty,
    Ty.anyHasUnknown (Ty.stripAll cut ts) = Ty.anyHasUnknown ts
  | [] => rfl
  | t :: ts => congrArg₂ or t.hasUnknown_strip (Ty.anyHasUnknown_strip ts)
termination_by structural ts => ts

theorem Ty.paramsHaveUnknown_strip : ∀ ps : List Param,
    Ty.paramsHaveUnknown (Param.stripAll cut ps) = Ty.paramsHaveUnknown ps
  | [] => rfl
  | ⟨_, t, _, _⟩ :: ps => congrArg₂ or t.hasUnknown_strip (Ty.paramsHaveUnknown_strip ps)
termination_by structural ps => ps

end

mutual

theorem Ty.resolve_strip (look : String → Option Ty) : ∀ t : Ty,
    (t.strip cut).resolve (fun name => (look name).map (Ty.strip cut)) =
      (t.resolve look).map (Ty.strip cut)
  | .unknown name => by
      simp only [Ty.strip, Ty.resolve]
      cases look name <;> rfl
  | .list elem => by
      simp only [Ty.strip, Ty.resolve, elem.resolve_strip look]
      cases elem.resolve look <;> rfl
  | .map key value => by
      simp only [Ty.strip, Ty.resolve, key.resolve_strip look, value.resolve_strip look]
      cases key.resolve look <;> cases value.resolve look <;> rfl
  | .tuple items => by
      simp only [Ty.strip, Ty.resolve, Ty.resolveAll_strip look items]
      cases Ty.resolveAll look items <;> rfl
  | .function ⟨params, ret⟩ => by
      simp only [Ty.strip, Signature.strip, Ty.resolve, Param.resolveAll_strip look params,
        ret.resolve_strip look]
      cases Param.resolveAll look params <;> cases ret.resolve look <;> rfl
  | .int | .float | .string | .bool | .char | .nil | .any | .noValue | .error | .named _
  | .classTy _ | .interfaceTy _ | .moduleTy _ => rfl
termination_by structural t => t

theorem Ty.resolveAll_strip (look : String → Option Ty) : ∀ ts : List Ty,
    Ty.resolveAll (fun name => (look name).map (Ty.strip cut)) (Ty.stripAll cut ts) =
      (Ty.resolveAll look ts).map (Ty.stripAll cut)
  | [] => rfl
  | t :: ts => by
      simp only [Ty.stripAll, Ty.resolveAll, t.resolve_strip look, Ty.resolveAll_strip look ts]
      cases t.resolve look <;> cases Ty.resolveAll look ts <;> rfl
termination_by structural ts => ts

theorem Param.resolveAll_strip (look : String → Option Ty) : ∀ ps : List Param,
    Param.resolveAll (fun name => (look name).map (Ty.strip cut)) (Param.stripAll cut ps) =
      (Param.resolveAll look ps).map (Param.stripAll cut)
  | [] => rfl
  | ⟨name, t, variadic, default⟩ :: ps => by
      simp only [Param.stripAll, Param.strip, Param.resolveAll, t.resolve_strip look,
        Param.resolveAll_strip look ps]
      cases t.resolve look <;> cases Param.resolveAll look ps <;> rfl
termination_by structural ps => ps

end

end Members

end StaticTyping
