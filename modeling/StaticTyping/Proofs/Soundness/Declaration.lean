import StaticTyping.Proofs.Soundness.Access

/-!
# Declarations

Signatures are well formed in the context that they are declared in, and bodies are well typed
with what the signature binds.
-/

namespace StaticTyping
namespace CheckM

variable {D : Discipline} {env : Surroundings} {Γ : Context}

/-!
# Signatures
-/

theorem Yields.param (name : Ident) {ty : Ty} (hty : ty.Annotates D env) (variadic : Bool)
    {default? : Option (Source.Expr × Operand)}
    (hdefault : ∀ d ∈ default?, Operand.Sound D env Γ d.2) :
    (CheckM.param name ty variadic default?).Yields D env Γ fun p =>
      p.WellFormed D Γ ∧ p.variadic = variadic := by
  refine (Yields.resolveTy hty name.line).bind fun ty' hty' => ?_
  have hplain : Param.WellFormed D Γ ⟨name.name, ty', variadic, none⟩ :=
    .intro hty' (fun d hd => by cases hd) fun d hd => by cases hd
  cases default? with
  | none => exact Yields.pure ⟨hplain, rfl⟩
  | some d =>
      have hvalue : (defaultValue name (Param.bodyTy ⟨name.name, ty', variadic, none⟩) d.1
          d.2).Yields D env Γ fun e => e.WellTyped D Γ ∧
            Γ.scopes.accepts (Param.bodyTy ⟨name.name, ty', variadic, none⟩) e.ty :=
        Yields.require.bind fun _ _ => (hdefault d rfl).confirm hplain.bodyTy
      refine hvalue.bind fun value h => Yields.pure ⟨.intro hty' ?_ ?_, rfl⟩
      · rintro _ ⟨⟩
        exact h.1
      · rintro _ ⟨⟩
        exact h.2

theorem Yields.resultTy {ret : Option Ty} (hret : ∀ ty ∈ ret, Ty.Annotates D env ty)
    (line : UInt32) :
    (CheckM.resultTy ret line).Yields D env Γ fun ty => ty.WellFormed D := by
  cases ret with
  | none => exact .pure (.atom rfl)
  | some ty => exact .resolveTy (hret ty rfl) line

def ParamsSound (D : Discipline) (env : Surroundings) (Γ : Context) (ps : List Source.Param)
    (xs : List (CheckM Param)) : Prop :=
  List.Forall₂ (fun (p : Source.Param) x => CheckM.Yields D env Γ x fun q =>
    q.WellFormed D Γ ∧ q.variadic = p.variadic) ps xs

theorem Yields.params {ps : List Source.Param} {xs : List (CheckM Param)}
    (h : ParamsSound D env Γ ps xs) (hordered : D.condition.params ps) :
    (CheckM.collect xs).Yields D env Γ fun qs =>
      (∀ q ∈ qs, q.WellFormed D Γ) ∧ (D.ordered → Param.ordered qs) := by
  refine (Yields.collect_forall₂ h).mono fun qs hqs => ⟨?_, fun hD => ?_⟩
  · exact forall_mem_of_forall₂ (hqs.imp fun _ _ hq => hq.1)
  · have hmarks : qs.map Param.variadic = ps.map Source.Param.variadic :=
      map_eq_of_forall₂ (hqs.imp fun _ _ hq => hq.2)
    unfold Param.ordered
    rw [hmarks]
    simpa [Discipline.condition, hD] using hordered

theorem Yields.signature {ps : List Source.Param} {xs : List (CheckM Param)}
    (h : ParamsSound D env Γ ps xs) (hordered : D.condition.params ps) {ret : Option Ty}
    (hret : ∀ ty ∈ ret, Ty.Annotates D env ty) (line : UInt32) :
    (CheckM.signature xs ret line).Yields D env Γ fun sig => sig.WellFormed D Γ :=
  (Yields.params h hordered).bind fun _ hqs => (Yields.resultTy hret line).bind fun _ hret =>
    Yields.pure (.intro hqs.1 hqs.2 hret)

theorem Yields.implemented {name : Ident} (hname : env.sees name.name) :
    (CheckM.implemented name).Yields D env Γ fun i => (Ty.interfaceTy i).WellFormed D := by
  refine (Yields.valueOf hname name.line).bind fun ty hty => ?_
  cases ty with
  | interfaceTy i => exact Yields.pure hty
  | _ => exact Yields.fail _ _

theorem Yields.classHead (name : Ident) (visibility : Visibility) {ps : List Source.Param}
    {xs : List (CheckM Param)} (hparams : ParamsSound D env Γ ps xs)
    (hordered : D.condition.params ps) {methods : List (CheckM NamedFunction)}
    (hmethods : ∀ x ∈ methods, CheckM.Yields D env Γ x fun f => f.sig.WellFormed D Γ)
    {implements : List Ident} (hseen : ∀ i ∈ implements, env.sees i.name) :
    (CheckM.classHead name visibility xs methods implements).Yields D env Γ fun c =>
      c.WellFormed D Γ ∧ c.methods.length = methods.length := by
  have hcollected : (CheckM.collect methods).Yields D env Γ fun fs =>
      (∀ f ∈ fs, f.sig.WellFormed D Γ) ∧ fs.length = methods.length := by
    have heach : List.Forall₂ (fun (_ : CheckM NamedFunction) x => CheckM.Yields D env Γ x
        fun f => f.sig.WellFormed D Γ) methods methods := List.forall₂_same.mpr hmethods
    exact (Yields.collect_forall₂ heach).mono fun fs hfs =>
      ⟨forall_mem_of_forall₂ hfs, hfs.length_eq.symm⟩
  have himplements : ∀ x ∈ implements.map CheckM.implemented, CheckM.Yields D env Γ x fun i =>
      (Ty.interfaceTy i).WellFormed D := by
    intro x hx
    rcases List.mem_map.mp hx with ⟨i, hi, rfl⟩
    exact .implemented (hseen i hi)
  exact (Yields.params hparams hordered).bind fun _ hqs => hcollected.bind fun _ hfs =>
    (Yields.collect himplements).bind fun _ his =>
    Yields.pure ⟨.intro hqs.1 hqs.2 hfs.1 his, hfs.2⟩

theorem Yields.interfaceHead (name : Ident) (visibility : Visibility)
    {methods : List (CheckM NamedFunction)}
    (hmethods : ∀ x ∈ methods, CheckM.Yields D env Γ x fun f => f.sig.WellFormed D Γ) :
    (CheckM.interfaceHead name visibility methods).Yields D env Γ fun i => i.WellFormed D Γ :=
  (Yields.collect hmethods).bind fun _ h => Yields.pure (.intro h)

/-!
# Variables
-/

theorem Yields.bindingValue (name : Ident) {written : Option Ty}
    (hwritten : ∀ ty ∈ written, Ty.Annotates D env ty) {init : Option Operand}
    (hinit : ∀ o ∈ init, Operand.Sound D env Γ o) (span : Span) :
    (CheckM.bindingValue name written init span).Yields D env Γ fun bound =>
      bound.1.WellFormed D ∧ bound.2.WellTyped D Γ ∧ Γ.scopes.accepts bound.1 bound.2.ty ∧
        (written.isSome = false → bound.2.ty = bound.1) := by
  cases written with
  | some ty =>
      refine (Yields.resolveTy (hwritten ty rfl) span.line).bind fun ty' hty' => ?_
      have hvalue : (initialValue name ty' init span).Yields D env Γ fun e =>
          e.WellTyped D Γ ∧ Γ.scopes.accepts ty' e.ty := by
        cases init with
        | some o => exact (hinit o rfl).confirm hty'
        | none =>
            refine Yields.orFail.mono fun e he => ?_
            rcases Ty.WellFormed.initial? (Γ := Γ) hty' he with ⟨htyped, heq⟩
            exact ⟨htyped, heq ▸ Γ.scopes.accepts_refl _⟩
      exact hvalue.bind fun e he => Yields.pure ⟨hty', he.1, he.2, fun h => by cases h⟩
  | none =>
      cases init with
      | none => exact .fail _ _
      | some o =>
          exact (hinit o rfl).check.bind fun e he =>
            Yields.pure ⟨he.wellFormed, he, Γ.scopes.accepts_refl _, fun _ => rfl⟩

def StmtSound (D : Discipline) (env : Surroundings) (Γ : Context) (x : CheckM Typed.Stmt) : Prop :=
  x.Ensures D env Γ fun s Γ' => s.kind.WellTyped D Γ Γ'

theorem StmtSound.binding (name : Ident) (isMutable : Bool) {written : Option Ty}
    (hwritten : ∀ ty ∈ written, Ty.Annotates D env ty) {init : Option Operand}
    (hinit : ∀ o ∈ init, Operand.Sound D env Γ o) (span : Span) :
    StmtSound D env Γ (CheckM.binding name isMutable written init span) := by
  refine Ensures.inStmt _ ((Yields.bindingValue name hwritten hinit span).bind fun bound h => ?_)
  refine Ensures.bind (Ensures.declare (Q := fun _ Γ' => Γ' = Γ.bind name.name bound.1) name.name
    h.1 rfl) fun _ Γ' hΓ' => .pure ?_
  subst hΓ'
  exact .binding h.1 h.2.1 h.2.2.1 h.2.2.2

/-!
# Interfaces, functions and classes
-/

theorem interfaceBindings_wellFormed {i : InterfaceTy} (h : i.WellFormed D Γ) :
    ∀ b ∈ interfaceBindings i, b.2.WellFormed D := by
  refine List.forall_mem_cons.mpr ⟨.interfaceTy h, fun b hb => ?_⟩
  rcases List.mem_map.mp hb with ⟨f, hf, rfl⟩
  rcases h with ⟨hmethods⟩
  exact .named (hmethods f hf)

theorem StmtSound.interfaceDecl {sig : CheckM InterfaceTy}
    (h : sig.Yields D env Γ fun i => i.WellFormed D Γ) (span : Span) :
    StmtSound D env Γ (CheckM.interfaceDecl sig span) := by
  refine h.bind fun i hi => ?_
  refine Ensures.bind (Ensures.declareAll (Q := fun _ Γ' => Γ' = Γ.bindAll (interfaceBindings i))
    (interfaceBindings_wellFormed hi) rfl) fun _ Γ' hΓ' => .pure ?_
  subst hΓ'
  exact .interfaceDecl hi

def BlockSound (D : Discipline) (env : Surroundings) (body : CheckM Typed.Block) : Prop :=
  ∀ Γ, body.Yields D env Γ fun b => b.WellTyped D Γ

theorem Yields.functionBody {sig : Signature} {Δ : Context} (hsig : sig.WellFormed D Δ)
    {body : CheckM Typed.Block} (hbody : BlockSound D env body) (line : UInt32) :
    (CheckM.functionBody sig body line).Yields D env Γ fun b =>
      b.WellTyped D (Γ.push.bindAll (Param.bindings sig.params)) ∧ sig.ret.accepts b.ty := by
  rcases hsig with ⟨hparams, _, _⟩
  refine Ensures.inStmt _ (Yields.inScope ?_)
  refine Ensures.bind (Ensures.declareAll
    (Q := fun _ Γ' => Γ' = Γ.push.bindAll (Param.bindings sig.params))
    (Param.WellFormed.bindings hparams) rfl) fun _ Γ' hΓ' => ?_
  subst hΓ'
  exact (hbody _).bind fun b hb => Yields.require.bind fun _ hret => .pure ⟨hb, hret⟩

theorem Yields.functionOf (name : Ident) {body : CheckM Typed.Block}
    (hbody : BlockSound D env body) (line : UInt32) {sig : NamedFunction}
    (hsig : (Ty.named sig).WellFormed D) :
    (CheckM.functionOf name body line sig).Yields D env Γ fun f =>
      f.WellTyped D Γ ∧ f.name = name ∧ f.sig = sig := by
  rcases hsig.sig with ⟨Δ, hwell⟩
  exact (Yields.functionBody hwell hbody line).bind fun b hb =>
    Yields.pure ⟨.intro hsig hb.1 hb.2, rfl, rfl⟩

theorem Ensures.functionDecl (name : Ident) {sig : CheckM NamedFunction}
    {P : NamedFunction → Prop} (hsig : sig.Yields D env Γ fun f => (Ty.named f).WellFormed D ∧ P f)
    {body : CheckM Typed.Block} (hbody : BlockSound D env body) (span : Span) :
    (CheckM.functionDecl name sig body span).Ensures D env Γ fun s Γ' =>
      ∃ f, s = ⟨.function f, span⟩ ∧ f.name = name ∧ P f.sig ∧
        Γ' = Γ.bind f.name.name (.named f.sig) ∧ f.WellTyped D Γ' := by
  refine hsig.bind fun f hf => ?_
  refine Ensures.bind (Ensures.declare (Q := fun _ Γ' => Γ' = Γ.bind name.name (.named f)) name.name
    hf.1 rfl) fun _ Γ' hΓ' => ?_
  refine (Yields.functionOf name hbody span.line hf.1).bind fun g hg => .pure ?_
  rcases hg with ⟨hwell, rfl, rfl⟩
  exact ⟨g, rfl, rfl, hf.2, hΓ', hwell⟩

theorem StmtSound.functionDecl (name : Ident) {sig : CheckM NamedFunction}
    (hsig : sig.Yields D env Γ fun f => f.sig.WellFormed D Γ) {body : CheckM Typed.Block}
    (hbody : BlockSound D env body) (span : Span) :
    StmtSound D env Γ (CheckM.functionDecl name sig body span) := by
  refine (Ensures.functionDecl name (hsig.mono fun f hf => ⟨.named hf, hf⟩) hbody span).mono ?_
  rintro s Γ' ⟨f, rfl, _, hf, rfl, hwell⟩
  exact .function hf hwell

theorem Yields.requireInterfaces (c : ClassTy) (line : UInt32) (is : List InterfaceTy) :
    (CheckM.requireInterfaces c line is).Yields D env Γ fun _ => ∀ i ∈ is, c.satisfies i := by
  induction is with
  | nil => exact .pure fun i hi => absurd hi List.not_mem_nil
  | cons i rest ih =>
      unfold CheckM.requireInterfaces
      cases h : c.unprovided? i with
      | some f => exact .fail _ _
      | none =>
          have hi : c.satisfies i := by
            unfold ClassTy.satisfies
            rw [h]
            rfl
          exact ih.mono fun _ hrest => List.forall_mem_cons.mpr ⟨hi, hrest⟩

def MethodsSound (D : Discipline) (env : Surroundings)
    (methods : List (NamedFunction → CheckM Typed.Function)) : Prop :=
  ∀ m ∈ methods, ∀ Γ f, (Ty.named f).WellFormed D →
    (m f).Yields D env Γ fun g => g.WellTyped D Γ ∧ g.sig = f

theorem Ensures.classDecl (name : Ident) {sig : CheckM ClassTy}
    {methods : List (NamedFunction → CheckM Typed.Function)} {P : ClassTy → Prop}
    (hsig : sig.Yields D env Γ fun c => (Ty.classTy c).WellFormed D ∧
      c.methods.length = methods.length ∧ P c)
    (hmethods : MethodsSound D env methods) (span : Span) :
    (CheckM.classDecl name sig methods span).Ensures D env Γ fun s Γ' =>
      ∃ c fs, s = ⟨.classDecl name c fs, span⟩ ∧ P c ∧ Γ' = Γ.bind name.name (.classTy c) ∧
        c.Implemented D Γ' fs := by
  refine hsig.bind fun c hc => ?_
  refine Ensures.bind (Ensures.declare (Q := fun _ Γ' => Γ' = Γ.bind name.name (.classTy c)) name.name
    hc.1 rfl) fun _ Γ' hΓ' => ?_
  rcases Ty.WellFormed.class_iff.mp hc.1 with ⟨Δ, hclass⟩
  have hbodies : (CheckM.collect (List.zipWith (fun check f => check f) methods c.methods)).Yields
      D env (Γ'.push.inClass c) fun fs =>
        (∀ f ∈ fs, f.WellTyped D (Γ'.push.inClass c)) ∧ fs.map Typed.Function.sig = c.methods := by
    rcases hclass with ⟨_, _, hsigs, _⟩
    rw [List.zipWith_comm]
    refine (Yields.collect_forall₂ (forall₂_zipWith (Nat.le_of_eq hc.2.1)
      fun f hf m hm => hmethods m hm _ f (.named (hsigs f hf)))).mono fun fs hfs => ⟨?_, ?_⟩
    · exact forall_mem_of_forall₂ (hfs.imp fun _ _ h => h.1)
    · exact (map_eq_of_forall₂ (hfs.imp fun _ _ h => h.2)).trans (List.map_id _)
  refine Yields.bind (Ensures.inStmt _ (Yields.inScope (Ensures.mono
    (Yields.inClass hc.1 hbodies) fun fs _ h => h.2))) fun fs hfs => ?_
  refine (Yields.requireInterfaces c span.line c.implements).bind fun _ himplements => .pure ?_
  exact ⟨c, fs, rfl, hc.2.2, hΓ', .intro hc.1 hfs.2 hfs.1 himplements⟩

theorem StmtSound.classDecl (name : Ident) {sig : CheckM ClassTy}
    {methods : List (NamedFunction → CheckM Typed.Function)}
    (hsig : sig.Yields D env Γ fun c => c.WellFormed D Γ ∧ c.methods.length = methods.length)
    (hmethods : MethodsSound D env methods) (span : Span) :
    StmtSound D env Γ (CheckM.classDecl name sig methods span) := by
  refine (Ensures.classDecl name (hsig.mono fun c hc => ⟨.classTy hc.1, hc.2, hc.1⟩) hmethods
    span).mono ?_
  rintro s Γ' ⟨c, fs, rfl, hc, rfl, himplemented⟩
  exact .classDecl hc himplemented

end CheckM
end StaticTyping
