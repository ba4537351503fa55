import StaticTyping.Proofs.Soundness.Arguments

/-!
# Members and calls

The members of well-typed values have well-formed types, and calls with arguments in place are
well typed.
-/

namespace StaticTyping
namespace CheckM

variable {D : Discipline} {env : Surroundings} {Γ : Context}

/-- A member of a well-typed object, and its type. -/
structure MemberSound (D : Discipline) (Γ : Context) (name : Ident) (m : Member) : Prop where
  object : m.object.WellTyped D Γ
  member : Γ.Member D m.object.ty name.name m.access m.ty
  wellFormed : m.ty.WellFormed D

theorem Yields.importMember (var name : Ident) {scope : Scope}
    (hscope : Scope.WellFormed D scope) :
    (CheckM.importMember var name scope).Yields D env Γ (MemberSound D Γ name) := by
  refine Yields.orFail.bind fun ty hty => Yields.pure ⟨?_, ?_, ?_⟩
  · exact .intro .var (hscope.toModule var.name)
  · exact .ofImport hty
  · exact hscope _ _ hty

theorem Yields.valueMember {object : Typed.Expr} (hobject : object.WellTyped D Γ) (name : Ident) :
    (CheckM.valueMember object name).Yields D env Γ (MemberSound D Γ name) := by
  have hwell := hobject.wellFormed
  unfold CheckM.valueMember
  split
  next c hty =>
    rw [hty] at hwell
    refine (Yields.currentClass hwell).bind fun current hcurrent => Yields.orFail.bind
      fun ty hmember => Yields.pure ⟨hobject, ?_, hcurrent.2.member? hmember⟩
    rw [hty]
    exact .field (hcurrent.1 ▸ hmember)
  next i hty =>
    rw [hty] at hwell
    refine (Yields.currentInterface hwell).bind fun current hcurrent => Yields.orFail.bind
      fun f hmethod => Yields.pure ⟨hobject, ?_, ?_⟩
    · rw [hty]
      exact .method (hcurrent.1 ▸ hmethod)
    · exact hcurrent.2.methods f (List.mem_of_find?_eq_some hmethod)
  next m hty =>
    rw [hty] at hwell
    refine Yields.orFail.bind fun ty hmember =>
      Yields.pure ⟨hobject, ?_, hwell.moduleMember? hmember⟩
    rw [hty]
    exact .ofModule hmember
  next =>
    split
    next package localName hpackage =>
      rw [← bind_assoc]
      refine (Yields.importStandard hpackage).bind fun scope hscope => Yields.orFail.bind
        fun ty hty => Yields.pure ?_
      rcases Option.bind_eq_some_iff.mp hty with ⟨found, hfound, hget⟩
      rcases hscope found hfound with ⟨hwell, hkept⟩
      refine ⟨hobject, ?_, hwell _ _ hget⟩
      by_cases hreserved : localName ∈ D.reserved
      · rcases hkept hreserved with ⟨m, hm, rfl⟩
        exact .standard hpackage hm (Library.get?_ofModule_standard hm name.name ▸ hget)
      · exact .renamed hpackage hreserved hget
    next => exact .fail _ _

theorem Yields.member {e : Source.Expr} (hseen : ∀ var, e.kind = .var var → env.sees var.name)
    {check : CheckM Typed.Expr} (h : check.Yields D env Γ fun e => e.WellTyped D Γ) (name : Ident) :
    (CheckM.member e check name).Yields D env Γ (MemberSound D Γ name) := by
  have hnamed : (importNamed? e).Yields D env Γ fun found =>
      ∀ p, found = some p → Scope.WellFormed D p.2 := by
    unfold importNamed?
    split
    next var hvar =>
      refine (Yields.imported? (hseen var hvar)).bind fun scope hscope => Yields.pure fun p hp => ?_
      rcases Option.map_eq_some_iff.mp hp with ⟨found, hfound, rfl⟩
      exact hscope found hfound
    next => exact .pure fun p hp => by cases hp
  refine hnamed.bind fun found hfound => ?_
  cases found with
  | some p => exact Yields.importMember p.1 name (hfound p rfl)
  | none => exact h.bind fun object hobject => Yields.valueMember hobject name

def CallSound (D : Discipline) (Γ : Context) (c : Call) : Prop :=
  Typed.Expr.Calls D Γ c.callee c.args c.ty ∧ c.ty.WellFormed D

theorem Yields.argumentSignature (callee : String) {sig : Signature} {Δ : Context}
    (hsig : sig.WellFormed D Δ) (f : Typed.Expr) (argCount : Nat) (line : UInt32) :
    (CheckM.argumentSignature callee sig f argCount line).Yields D env Γ fun expected =>
      expected.WellFormed D Δ ∧ f.Expects sig expected := by
  unfold CheckM.argumentSignature
  cases hreceiver : receiver? f with
  | none => exact .pure ⟨hsig, .of_receiver?_eq_none hreceiver⟩
  | some object =>
      rcases sig with ⟨params, ret⟩
      rcases hsig with ⟨hparams, hordered, hret⟩
      cases params with
      | nil => exact .fail _ _
      | cons p ps =>
          refine Yields.require.bind fun _ haccepts =>
            Yields.pure ⟨?_, .of_receiver?_eq_some hreceiver haccepts⟩
          refine .intro (fun q hq => hparams q (List.mem_cons_of_mem _ hq)) (fun hD => ?_) hret
          exact ordered_tail (hordered hD)

theorem Yields.call (e : Source.Expr) {check : CheckM Typed.Expr}
    (h : check.Yields D env Γ fun e => e.WellTyped D Γ) {args : List Argument}
    (hargs : ∀ a ∈ args, Operand.Sound D env Γ a.value) (span : Span) :
    (CheckM.call e check args span).Yields D env Γ (CallSound D Γ) := by
  refine h.bind fun callee hcallee => Yields.orFail.bind fun sig hsig => ?_
  rcases hcallee.wellFormed.callSignature? hsig with ⟨Δ, hwell⟩
  refine (Yields.argumentSignature (calleeName e) hwell callee args.length span.line).bind
    fun expected hexpected => (Yields.arrange (calleeName e) hexpected.1 hargs span).bind
    fun values hvalues => Yields.pure ⟨?_, ?_⟩
  · refine .intro hcallee hsig hexpected.2 hvalues.elsewhere (fun hD => ?_) fun hD pa hpa => ?_
    · exact (hvalues.filled hD).length_eq.symm
    · exact (List.forall₂_iff_zip.mp (hvalues.filled hD)).2 hpa
  · rcases hexpected.1 with ⟨_, _, hret⟩
    exact hret

end CheckM
end StaticTyping
