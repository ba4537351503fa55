import StaticTyping.Proofs.Condition
import StaticTyping.Proofs.Relation
import StaticTyping.Proofs.Tables

/-!
# Where well-formed types come from

Annotations become well formed when their names are looked up among well-formed types.  The parts
of well-formed types are well formed, and so are the types of the builtin functions and of the
standard packages.
-/

namespace StaticTyping

variable {D : Discipline} {Γ : Context}

/-!
# Annotations
-/

mutual

/-- Whether a type can be written as an annotation: names, types without parts, and what lists,
maps, tuples and functions without defaults make of them. -/
def Ty.written (D : Discipline) : Ty → Bool
  | .unknown _ => true
  | .noValue => D.noValue
  | .list elem => elem.written D
  | .map key value => key.written D && value.written D
  | .tuple items => Ty.allWritten D items
  | .function ⟨params, ret⟩ =>
      (!D.ordered || Param.ordered params) && Param.allWritten D params && ret.written D
  | t => t.isAtom
termination_by structural t => t

def Ty.allWritten (D : Discipline) : List Ty → Bool
  | [] => true
  | t :: ts => t.written D && Ty.allWritten D ts
termination_by structural ts => ts

def Param.allWritten (D : Discipline) : List Param → Bool
  | [] => true
  | ⟨_, ty, _, default⟩ :: ps => ty.written D && default.isNone && Param.allWritten D ps
termination_by structural ps => ps

end

def Source.Import.spares (i : Source.Import) (p : String × String) : Bool :=
  i.space != p.2 || i.package.name == p.1

theorem Source.Import.spares_iff {i : Source.Import} {p : String × String} :
    i.spares p ↔ (p.2 = i.space → i.package.name = p.1) := by
  unfold spares
  rw [Bool.or_eq_true, bne_iff_ne, beq_iff_eq, ne_comm, ← imp_iff_not_or]

def Discipline.admits (D : Discipline) (i : Source.Import) : Bool :=
  Library.onDemand.all fun p => !D.reserved.contains p.2 || i.spares p

/-- What a discipline asks of source trees: annotations that can be written, the order of
parameters that signatures are held to, and imports that leave reserved names alone. -/
def Discipline.condition (D : Discipline) : Source.Condition where
  stmt
    | .importOne package alias? => D.admits ⟨package, alias?, default⟩
    | .importMany imports => imports.all D.admits
    | _ => true
  ty := Ty.written D
  params ps := !D.ordered || onlyLast (ps.map Source.Param.variadic)

theorem Discipline.package_of_admits {D : Discipline} {i : Source.Import} (h : D.admits i)
    {p : String × String} (hp : p ∈ Library.onDemand) (hreserved : p.2 ∈ D.reserved)
    (hspace : p.2 = i.space) : i.package.name = p.1 := by
  have hspares := List.all_eq_true.mp h p hp
  rw [List.contains_iff_mem.mpr hreserved] at hspares
  exact Source.Import.spares_iff.mp hspares hspace

/-- What annotations and parameters are held to as they can be written: `noValue` may stand in
types, and any parameter may be variadic. -/
def Discipline.asWritten : Discipline :=
  ⟨true, false, []⟩

mutual

/-- The names that are looked up when an annotation is resolved. -/
def Ty.names : Ty → List String
  | .unknown name => [name]
  | .list elem => elem.names
  | .map key value => key.names ++ value.names
  | .tuple items => Ty.allNames items
  | .function ⟨params, ret⟩ => Param.allNames params ++ ret.names
  | _ => []
termination_by structural t => t

def Ty.allNames : List Ty → List String
  | [] => []
  | t :: ts => t.names ++ Ty.allNames ts
termination_by structural ts => ts

def Param.allNames : List Param → List String
  | [] => []
  | ⟨_, ty, _, _⟩ :: ps => ty.names ++ Param.allNames ps
termination_by structural ps => ps

end

section

variable {look look' : String → Option Ty}

mutual

theorem Ty.resolve_congr : ∀ t : Ty, (∀ name ∈ t.names, look' name = look name) →
    t.resolve look' = t.resolve look
  | .unknown name, h => by
      unfold Ty.resolve
      rw [h name List.mem_cons_self]
  | .list elem, h => by
      unfold Ty.resolve
      rw [Ty.resolve_congr elem h]
  | .map key value, h => by
      rcases List.forall_mem_append.mp h with ⟨hkey, hvalue⟩
      unfold Ty.resolve
      rw [Ty.resolve_congr key hkey, Ty.resolve_congr value hvalue]
  | .tuple items, h => by
      unfold Ty.resolve
      rw [Ty.resolveAll_congr items h]
  | .function ⟨params, ret⟩, h => by
      rcases List.forall_mem_append.mp h with ⟨hparams, hret⟩
      unfold Ty.resolve
      rw [Param.resolveAll_congr params hparams, Ty.resolve_congr ret hret]
  | .int, _ | .float, _ | .string, _ | .bool, _ | .char, _ | .nil, _ | .any, _ | .noValue, _
  | .error, _ | .named _, _ | .classTy _, _ | .interfaceTy _, _ | .moduleTy _, _ => rfl
termination_by structural t => t

theorem Ty.resolveAll_congr : ∀ ts : List Ty, (∀ name ∈ Ty.allNames ts, look' name = look name) →
    Ty.resolveAll look' ts = Ty.resolveAll look ts
  | [], _ => rfl
  | t :: ts, h => by
      rcases List.forall_mem_append.mp h with ⟨ht, hts⟩
      unfold Ty.resolveAll
      rw [Ty.resolve_congr t ht, Ty.resolveAll_congr ts hts]
termination_by structural ts => ts

theorem Param.resolveAll_congr : ∀ ps : List Param,
    (∀ name ∈ Param.allNames ps, look' name = look name) →
    Param.resolveAll look' ps = Param.resolveAll look ps
  | [], _ => rfl
  | ⟨_, ty, _, _⟩ :: ps, h => by
      rcases List.forall_mem_append.mp h with ⟨hty, hps⟩
      unfold Param.resolveAll
      rw [Ty.resolve_congr ty hty, Param.resolveAll_congr ps hps]
termination_by structural ps => ps

end

end

theorem exists_ok_of_bind_eq_ok {ε α β : Type} {x : Except ε α} {f : α → Except ε β} {b : β}
    (h : x >>= f = .ok b) : ∃ a, x = .ok a ∧ f a = .ok b := by
  cases x with
  | error e => cases h
  | ok a => exact ⟨a, rfl, h⟩

theorem Param.map_variadic_resolveAll {look : String → Option Ty} {ps qs : List Param}
    (h : Param.resolveAll look ps = .ok qs) : qs.map Param.variadic = ps.map Param.variadic := by
  induction ps generalizing qs with
  | nil =>
      cases h
      rfl
  | cons p ps ih =>
      rcases p with ⟨name, ty, variadic, default⟩
      rcases exists_ok_of_bind_eq_ok h with ⟨ty', _, h⟩
      rcases exists_ok_of_bind_eq_ok h with ⟨qs', hqs, h⟩
      cases h
      exact congrArg (variadic :: ·) (ih hqs)

mutual

theorem Ty.WellFormed.resolve {look : String → Option Ty}
    (hlook : ∀ name t, look name = some t → t.WellFormed D) :
    ∀ (t : Ty) {t' : Ty}, t.written D → t.resolve look = .ok t' → t'.WellFormed D
  | .unknown name, t', _, h => by
      unfold Ty.resolve at h
      split at h
      next found hfound =>
        cases h
        exact hlook name _ hfound
      next => cases h
  | .noValue, _, hw, h => by
      cases h
      exact .noValue hw
  | .list elem, _, hw, h => by
      rcases exists_ok_of_bind_eq_ok h with ⟨elem', helem, h⟩
      cases h
      exact .list (Ty.WellFormed.resolve hlook elem hw helem)
  | .map key value, _, hw, h => by
      rcases Bool.and_eq_true_iff.mp hw with ⟨hkey, hvalue⟩
      rcases exists_ok_of_bind_eq_ok h with ⟨key', hkey', h⟩
      rcases exists_ok_of_bind_eq_ok h with ⟨value', hvalue', h⟩
      cases h
      exact .map (Ty.WellFormed.resolve hlook key hkey hkey')
        (Ty.WellFormed.resolve hlook value hvalue hvalue')
  | .tuple items, _, hw, h => by
      rcases exists_ok_of_bind_eq_ok h with ⟨items', hitems, h⟩
      cases h
      exact .tuple (Ty.WellFormed.resolveAll hlook items hw hitems)
  | .function ⟨params, ret⟩, _, hw, h => by
      rcases Bool.and_eq_true_iff.mp hw with ⟨hhead, hret⟩
      rcases Bool.and_eq_true_iff.mp hhead with ⟨hordered, hparams⟩
      rcases exists_ok_of_bind_eq_ok h with ⟨params', hparams', h⟩
      rcases exists_ok_of_bind_eq_ok h with ⟨ret', hret', h⟩
      cases h
      -- resolving changes the types of parameters, not which of them are variadic
      have horder : D.ordered → Param.ordered params' := by
        intro hD
        rw [Param.ordered, Param.map_variadic_resolveAll hparams']
        simpa [hD, Param.ordered] using hordered
      exact .function (.intro
        (Param.WellFormed.resolveAll hlook params hparams hparams' default) horder
        (Ty.WellFormed.resolve hlook ret hret hret'))
  | .int, _, _, h | .float, _, _, h | .string, _, _, h | .bool, _, _, h | .char, _, _, h
  | .nil, _, _, h | .any, _, _, h | .error, _, _, h => by
      cases h
      exact .atom rfl
termination_by structural t => t

theorem Ty.WellFormed.resolveAll {look : String → Option Ty}
    (hlook : ∀ name t, look name = some t → t.WellFormed D) :
    ∀ (ts : List Ty) {ts' : List Ty}, Ty.allWritten D ts → Ty.resolveAll look ts = .ok ts' →
    ∀ t ∈ ts', t.WellFormed D
  | [], _, _, h => by
      cases h
      exact fun t ht => absurd ht List.not_mem_nil
  | t :: ts, _, hw, h => by
      rcases Bool.and_eq_true_iff.mp hw with ⟨ht, hts⟩
      rcases exists_ok_of_bind_eq_ok h with ⟨t', ht', h⟩
      rcases exists_ok_of_bind_eq_ok h with ⟨ts', hts', h⟩
      cases h
      exact List.forall_mem_cons.mpr
        ⟨Ty.WellFormed.resolve hlook t ht ht', Ty.WellFormed.resolveAll hlook ts hts hts'⟩
termination_by structural ts => ts

theorem Param.WellFormed.resolveAll {look : String → Option Ty}
    (hlook : ∀ name t, look name = some t → t.WellFormed D) :
    ∀ (ps : List Param) {ps' : List Param}, Param.allWritten D ps →
    Param.resolveAll look ps = .ok ps' → ∀ Γ : Context, ∀ p ∈ ps', p.WellFormed D Γ
  | [], _, _, h, _ => by
      cases h
      exact fun t ht => absurd ht List.not_mem_nil
  | ⟨name, ty, variadic, default⟩ :: ps, _, hw, h, Γ => by
      rcases Bool.and_eq_true_iff.mp hw with ⟨hhead, hps⟩
      rcases Bool.and_eq_true_iff.mp hhead with ⟨hty, hdefault⟩
      rcases exists_ok_of_bind_eq_ok h with ⟨ty', hty', h⟩
      rcases exists_ok_of_bind_eq_ok h with ⟨ps', hps', h⟩
      cases h
      cases Option.isNone_iff_eq_none.mp hdefault
      have hp : Param.WellFormed D Γ ⟨name, ty', variadic, none⟩ :=
        .intro (Ty.WellFormed.resolve hlook ty hty hty') (fun d hd => by cases hd)
          fun d hd => by cases hd
      exact List.forall_mem_cons.mpr ⟨hp, Param.WellFormed.resolveAll hlook ps hps hps' Γ⟩
termination_by structural ps => ps

end

/-!
# Parts of types
-/

theorem Scopes.accepts_refl (s : Scopes) (t : Ty) : s.accepts t t = true := by
  cases t with
  | interfaceTy i => exact Ty.accepts_refl (.interfaceTy i)
  | _ => exact Ty.accepts_refl _

theorem Param.WellFormed.bodyTy {p : Param} (h : p.WellFormed D Γ) : p.bodyTy.WellFormed D := by
  rcases h with ⟨hty, _, _⟩
  unfold Param.bodyTy
  split
  · exact .list hty
  · exact hty

theorem Param.WellFormed.bindings {ps : List Param} (h : ∀ p ∈ ps, p.WellFormed D Γ) :
    ∀ b ∈ Param.bindings ps, b.2.WellFormed D := by
  intro b hb
  rcases List.mem_map.mp hb with ⟨p, hp, rfl⟩
  exact (h p hp).bodyTy

theorem Typed.Expr.WellTyped.wellFormed {e : Typed.Expr} (h : e.WellTyped D Γ) :
    e.ty.WellFormed D := by
  rcases h with ⟨_, h⟩
  exact h

theorem Typed.Block.WellTyped.wellFormed {b : Typed.Block} (h : b.WellTyped D Γ) :
    b.ty.WellFormed D := by
  rcases h with ⟨_, _, h⟩
  exact h

theorem Typed.Expr.WellTyped.emptyList {elem : Ty} {span : Span}
    (h : (Ty.list elem).WellFormed D) : Typed.Expr.WellTyped D Γ ⟨.list [], .list elem, span⟩ :=
  .intro (.list (fun _ h => absurd h List.not_mem_nil) fun _ h => absurd h List.not_mem_nil) h

theorem Typed.Expr.WellTyped.emptyMap {key value : Ty} {span : Span}
    (h : (Ty.map key value).WellFormed D) :
    Typed.Expr.WellTyped D Γ ⟨.map [], .map key value, span⟩ :=
  .intro (.map (fun _ h => absurd h List.not_mem_nil) (fun _ h => absurd h List.not_mem_nil)
    (fun _ h => absurd h List.not_mem_nil) fun _ h => absurd h List.not_mem_nil) h

namespace Ty.WellFormed

theorem elem {elem : Ty} (h : (Ty.list elem).WellFormed D) : elem.WellFormed D := by
  cases h with
  | atom h => cases h
  | list h => exact h

theorem key_value {key value : Ty} (h : (Ty.map key value).WellFormed D) :
    key.WellFormed D ∧ value.WellFormed D := by
  cases h with
  | atom h => cases h
  | map hkey hvalue => exact ⟨hkey, hvalue⟩

theorem sig {f : NamedFunction} (h : (Ty.named f).WellFormed D) : ∃ Γ, f.sig.WellFormed D Γ := by
  cases h with
  | atom h => cases h
  | named h => exact ⟨_, h⟩

theorem class_iff {c : ClassTy} : (Ty.classTy c).WellFormed D ↔ ∃ Γ, c.WellFormed D Γ := by
  constructor
  · intro h
    cases h with
    | atom h => cases h
      | classTy h => exact ⟨_, h⟩
  · rintro ⟨Γ, h⟩
    exact .classTy h

theorem methods {i : InterfaceTy} (h : (Ty.interfaceTy i).WellFormed D) :
    ∀ f ∈ i.methods, (Ty.named f).WellFormed D := by
  intro f hf
  cases h with
  | atom h => cases h
  | interfaceTy h =>
      rcases h with ⟨hmethods⟩
      exact .named (hmethods f hf)

theorem indexTypes? {t key value : Ty} (h : t.WellFormed D)
    (ht : t.indexTypes? = some (key, value)) : value.WellFormed D := by
  cases t with
  | list elem =>
      cases ht
      exact h.elem
  | string =>
      cases ht
      exact .atom rfl
  | map k v =>
      cases ht
      exact h.key_value.2
  | _ => cases ht

theorem element? {t elem : Ty} (h : t.WellFormed D) (ht : t.element? = some elem) :
    elem.WellFormed D := by
  cases t with
  | list e =>
      cases ht
      exact h.elem
  | string =>
      cases ht
      exact .atom rfl
  | _ => cases ht

theorem callSignature? {t : Ty} {sig : Signature} (h : t.WellFormed D)
    (ht : t.callSignature? = some sig) : ∃ Γ, sig.WellFormed D Γ := by
  cases t with
  | named f =>
      cases ht
      exact h.sig
  | function s =>
      cases ht
      cases h with
      | atom h => cases h
          | function h => exact ⟨_, h⟩
  | classTy c =>
      cases ht
      rcases class_iff.mp h with ⟨Γ, hc⟩
      rcases id hc with ⟨hparams, hordered, _, _⟩
      exact ⟨Γ, .intro hparams hordered h⟩
  | _ => cases ht

theorem member? {c : ClassTy} {name : String} {ty : Ty} (h : (Ty.classTy c).WellFormed D)
    (hty : c.member? name = some ty) : ty.WellFormed D := by
  rcases class_iff.mp h with ⟨Γ, hparams, _, hmethods, _⟩
  unfold ClassTy.member? at hty
  split at hty
  next p hp =>
    cases hty
    exact (hparams p (List.mem_of_find?_eq_some hp)).bodyTy
  next =>
    rcases Option.map_eq_some_iff.mp hty with ⟨f, hf, rfl⟩
    exact .named (hmethods f (List.mem_of_find?_eq_some hf))

theorem moduleMember? {m : ModuleTy} {name : String} {ty : Ty} (h : (Ty.moduleTy m).WellFormed D)
    (hty : m.member? name = some ty) : ty.WellFormed D := by
  rcases Option.map_eq_some_iff.mp hty with ⟨pair, hpair, rfl⟩
  exact h.of_mem_members (List.mem_of_find?_eq_some hpair)

theorem initial? {t : Ty} {span : Span} {e : Typed.Expr} (h : t.WellFormed D)
    (he : t.initial? span = some e) : e.WellTyped D Γ ∧ e.ty = t := by
  cases t with
  | int =>
      cases he
      exact ⟨.intro .int h, rfl⟩
  | float =>
      cases he
      exact ⟨.intro .float h, rfl⟩
  | bool =>
      cases he
      exact ⟨.intro .bool h, rfl⟩
  | list elem =>
      cases he
      exact ⟨.emptyList h, rfl⟩
  | map key value =>
      cases he
      exact ⟨.emptyMap h, rfl⟩
  | _ => cases he

theorem nominal? {t t' : Ty} (h : t.WellFormed D) (ht : t.nominal? = some t') :
    t'.WellFormed D := by
  cases t with
  | classTy c =>
      cases ht
      exact h
  | interfaceTy i =>
      cases ht
      exact h
  | _ => cases ht

end Ty.WellFormed

/-!
# The library
-/

def Ty.isGround : Ty → Bool
  | .list elem => elem.isGround
  | .map key value => key.isGround && value.isGround
  | t => t.isAtom
termination_by structural t => t

def Signature.isGround (sig : Signature) : Bool :=
  sig.params.all (fun p => p.ty.isGround && p.default.isNone) && Param.ordered sig.params &&
    sig.ret.isGround

def ModuleTy.isGround (m : ModuleTy) : Bool :=
  m.functions.all (·.sig.isGround) && m.classes.isEmpty && m.values.all (·.ty.isGround)

theorem Ty.WellFormed.of_isGround : ∀ {t : Ty}, t.isGround → t.WellFormed D
  | .list _, h => .list (Ty.WellFormed.of_isGround h)
  | .map _ _, h =>
      .map (Ty.WellFormed.of_isGround (Bool.and_eq_true_iff.mp h).1)
        (Ty.WellFormed.of_isGround (Bool.and_eq_true_iff.mp h).2)
  | .int, h | .float, h | .string, h | .bool, h | .char, h | .nil, h | .any, h | .error, h => .atom h
termination_by structural t => t

theorem Signature.WellFormed.of_isGround {sig : Signature} (h : sig.isGround) :
    sig.WellFormed D Γ := by
  rcases Bool.and_eq_true_iff.mp h with ⟨hhead, hret⟩
  rcases Bool.and_eq_true_iff.mp hhead with ⟨hparams, hordered⟩
  refine .intro (fun p hp => ?_) (fun _ => hordered) (.of_isGround hret)
  rcases Bool.and_eq_true_iff.mp (List.all_eq_true.mp hparams p hp) with ⟨hty, hdefault⟩
  have hnone := Option.isNone_iff_eq_none.mp hdefault
  exact .intro (.of_isGround hty) (fun d hd => by cases hnone.symm.trans hd)
    fun d hd => by cases hnone.symm.trans hd

theorem ModuleTy.WellFormed.of_isGround {m : ModuleTy} (h : m.isGround) :
    (Ty.moduleTy m).WellFormed D := by
  rcases Bool.and_eq_true_iff.mp h with ⟨hhead, hvalues⟩
  rcases Bool.and_eq_true_iff.mp hhead with ⟨hfunctions, hclasses⟩
  refine .moduleTy (fun f hf => ?_) (fun c hc => ?_) fun v hv => ?_
  · exact .named (Γ := default)
      (Signature.WellFormed.of_isGround (List.all_eq_true.mp hfunctions f hf))
  · rw [List.isEmpty_iff.mp hclasses] at hc
    exact absurd hc List.not_mem_nil
  · exact Ty.WellFormed.of_isGround (List.all_eq_true.mp hvalues v hv)

theorem Library.standard?_wellFormed {package : String} {m : ModuleTy}
    (h : Library.standard? package = some m) : (Ty.moduleTy m).WellFormed D := by
  have hground : Library.packages.all (·.2.isGround) = true := rfl
  exact ModuleTy.WellFormed.of_isGround
    (Library.of_standard? (P := fun m => m.isGround) (List.all_eq_true.mp hground) h)

theorem Builtin.bindAll_wellFormed {t : SymbolTable} (h : t.WellFormed D) (space : String) :
    (Builtin.bindAll t space).WellFormed D := by
  have hground : Builtin.functions.all (·.sig.isGround) = true := rfl
  unfold Builtin.bindAll
  generalize Builtin.functions = fs at hground
  induction fs generalizing t with
  | nil => exact h
  | cons f fs ih =>
      rcases Bool.and_eq_true_iff.mp hground with ⟨hf, hfs⟩
      exact ih (h.bind space f.name (.named (Γ := default) (Signature.WellFormed.of_isGround hf))) hfs

end StaticTyping
