import StaticTyping.Proofs.Soundness.Names

/-!
# Arguments

The arguments of a call are arranged so that each parameter takes a value that it accepts.
-/

namespace StaticTyping

@[simp] theorem Seat.map_param_give (name : String) (v : Typed.Expr) (seats : List Seat) :
    (Seat.give name v seats).map Seat.param = seats.map Seat.param := by
  induction seats with
  | nil => rfl
  | cons seat seats ih =>
      unfold Seat.give
      split
      · rfl
      · simpa using ih

theorem Typed.Expr.Expects.of_receiver?_eq_none {callee : Typed.Expr} {sig : Signature}
    (h : CheckM.receiver? callee = none) : callee.Expects sig sig := by
  refine .plain fun object name space hkind => ?_
  unfold CheckM.receiver? at h
  rw [hkind] at h
  cases h

theorem Typed.Expr.Expects.of_receiver?_eq_some {callee object : Typed.Expr} {p : Param}
    {params : List Param} {ret : Ty} (h : CheckM.receiver? callee = some object)
    (haccepts : p.bodyTy.accepts object.ty) :
    callee.Expects ⟨p :: params, ret⟩ ⟨params, ret⟩ := by
  rcases callee with ⟨kind, ty, span⟩
  unfold CheckM.receiver? at h
  split at h
  next hkind =>
    cases h
    cases hkind
    exact .method haccepts
  next => cases h

namespace CheckM

variable {D : Discipline} {env : Surroundings} {Γ : Context}

/-!
# Arguments by position
-/

theorem forall_mem_of_forall₂ {α β : Type} {P : β → Prop} {as : List α} {bs : List β}
    (h : List.Forall₂ (fun _ b => P b) as bs) : ∀ b ∈ bs, P b := by
  induction h with
  | nil => exact fun b hb => absurd hb List.not_mem_nil
  | cons hb _ ih => exact List.forall_mem_cons.mpr ⟨hb, ih⟩

theorem map_eq_of_forall₂ {α β γ : Type} {f : α → γ} {g : β → γ} {as : List α} {bs : List β}
    (h : List.Forall₂ (fun a b => g b = f a) as bs) : bs.map g = as.map f := by
  induction h with
  | nil => rfl
  | cons hb _ ih => rw [List.map_cons, List.map_cons, hb, ih]

theorem forall₂_zipWith {α β γ : Type} {R : α → γ → Prop} {f : α → β → γ} {as : List α}
    {bs : List β} (hlength : as.length ≤ bs.length) (h : ∀ a ∈ as, ∀ b ∈ bs, R a (f a b)) :
    List.Forall₂ R as (List.zipWith f as bs) := by
  induction as generalizing bs with
  | nil => exact .nil
  | cons a as ih =>
      cases bs with
      | nil => cases hlength
      | cons b bs =>
          exact .cons (h a List.mem_cons_self b List.mem_cons_self)
            (ih (Nat.le_of_succ_le_succ hlength) fun a' ha' b' hb' =>
              h a' (List.mem_cons_of_mem _ ha') b' (List.mem_cons_of_mem _ hb'))

theorem bodyTy_of_not_variadic {p : Param} (h : p.variadic = false) : p.bodyTy = p.ty := by
  unfold Param.bodyTy
  rw [h]
  rfl

theorem not_variadic_of_mem_dropLast {ps : List Param} (h : Param.ordered ps) {p : Param}
    (hp : p ∈ ps.dropLast) : p.variadic = false := by
  unfold Param.ordered onlyLast at h
  rw [← List.map_dropLast] at h
  exact Bool.not_eq_true' _ ▸ List.all_eq_true.mp h _ (List.mem_map_of_mem hp)

theorem ordered_tail {p : Param} {ps : List Param} (h : Param.ordered (p :: ps)) :
    Param.ordered ps := by
  cases ps with
  | nil => rfl
  | cons q qs => exact (Bool.and_eq_true_iff.mp h).2

theorem fixedParams_of_some {sig : Signature} {p : Param} (h : sig.restParam? = some p) :
    sig.params = sig.fixedParams ++ [p] ∧ p.variadic = true := by
  rcases Option.filter_eq_some_iff.mp h with ⟨hlast, hvariadic⟩
  have hfixed : sig.fixedParams = sig.params.dropLast := by
    unfold Signature.fixedParams
    rw [h]
    rfl
  rw [hfixed]
  exact ⟨(List.dropLast_append_getLast? p hlast).symm, hvariadic⟩

theorem fixedParams_of_none {sig : Signature} (h : sig.restParam? = none) :
    sig.fixedParams = sig.params := by
  unfold Signature.fixedParams
  rw [h]
  rfl

theorem mem_params_of_mem_fixedParams {sig : Signature} {p : Param} (h : p ∈ sig.fixedParams) :
    p ∈ sig.params := by
  unfold Signature.fixedParams at h
  split at h
  · exact List.dropLast_subset _ h
  · exact h

theorem fixedParams_not_variadic {sig : Signature} (h : Param.ordered sig.params) :
    ∀ p ∈ sig.fixedParams, p.variadic = false := by
  intro p hp
  cases hrest : sig.restParam? with
  | some q =>
      have hparams := (fixedParams_of_some hrest).1
      have hdrop : sig.params.dropLast = sig.fixedParams := by
        rw [hparams, List.dropLast_concat]
      exact not_variadic_of_mem_dropLast h (hdrop ▸ hp)
  | none =>
      rw [fixedParams_of_none hrest] at hp
      cases hparams : sig.params.getLast? with
      | none =>
          rw [List.getLast?_eq_none_iff.mp hparams] at hp
          exact absurd hp List.not_mem_nil
      | some last =>
          rw [← List.dropLast_append_getLast? last hparams] at hp
          rcases List.mem_append.mp hp with hp | hp
          · exact not_variadic_of_mem_dropLast h hp
          · cases List.mem_singleton.mp hp
            have hfilter := Option.filter_eq_none_iff.mp hrest p hparams
            exact Bool.eq_false_iff.mpr hfilter

/-- Values for the parameters of a signature: each is well typed where it stands, and if the
parameters are in order, each stands for one of them. -/
structure Arranged (D : Discipline) (Γ : Context) (params : List Param)
    (values : List Typed.Expr) : Prop where
  elsewhere : ∀ v ∈ values, v.Elsewhere D
  filled : D.ordered → List.Forall₂ (Typed.Expr.Fills D Γ) params values

theorem Yields.byPosition (callee : String) {sig : Signature} {Δ : Context}
    (hsig : sig.WellFormed D Δ) {args : List Operand} (hargs : ∀ o ∈ args, Operand.Sound D env Γ o)
    (span : Span) :
    (CheckM.byPosition callee sig args span).Yields D env Γ (Arranged D Γ sig.params) := by
  rcases hsig with ⟨hparams, hordered, _⟩
  refine Yields.require.bind fun _ hfits => ?_
  have hlength := Signature.length_fixedParams_le_of_fits hfits
  have hfixed : List.Forall₂ (fun (p : Param) x => CheckM.Yields D env Γ x fun e =>
      e.WellTyped D Γ ∧ Γ.scopes.accepts p.ty e.ty) sig.fixedParams
      (List.zipWith (fun p arg => arg.confirm p.ty) sig.fixedParams args) := by
    refine forall₂_zipWith hlength fun p hp o ho => (hargs o ho).confirm ?_
    rcases hparams p (mem_params_of_mem_fixedParams hp) with ⟨hty, _, _⟩
    exact hty
  refine (Yields.collect_forall₂ hfixed).bind fun values hvalues => ?_
  have helsewhere : ∀ v ∈ values, v.Elsewhere D :=
    forall_mem_of_forall₂ (hvalues.imp fun _ _ h => .intro h.1)
  have hfilled : D.ordered → List.Forall₂ (Typed.Expr.Fills D Γ) sig.fixedParams values := by
    intro hD
    have hboth := (List.forall₂_and_left _ _).mpr
      ⟨fixedParams_not_variadic (hordered hD), hvalues⟩
    exact hboth.imp fun p v h =>
      .given h.2.1 ((bodyTy_of_not_variadic h.1).symm ▸ h.2.2)
  -- the variadic parameter, if there is one, is filled by the list of all that it absorbs
  cases hrest : sig.restParam? with
  | none =>
      exact Yields.pure ⟨helsewhere, fun hD => fixedParams_of_none hrest ▸ hfilled hD⟩
  | some p =>
      rcases fixedParams_of_some hrest with ⟨hconcat, hvariadic⟩
      have hp : p.WellFormed D Δ := hparams p (hconcat ▸ List.mem_append_right _ List.mem_cons_self)
      have hbody : p.bodyTy = .list p.ty := by
        unfold Param.bodyTy
        rw [if_pos hvariadic]
      have hlist := hp.bodyTy
      rw [hbody] at hlist
      have habsorbed : ∀ x ∈ (args.drop sig.fixedParams.length).map (·.confirm p.ty),
          CheckM.Yields D env Γ x fun e => e.WellTyped D Γ ∧ Γ.scopes.accepts p.ty e.ty := by
        intro x hx
        rcases List.mem_map.mp hx with ⟨o, ho, rfl⟩
        exact (hargs o (List.mem_of_mem_drop ho)).confirm hlist.elem
      refine (Yields.collect habsorbed).bind fun absorbed h => ?_
      have hpacked : Typed.Expr.WellTyped D Γ ⟨.list absorbed, p.bodyTy, span⟩ := by
        rw [hbody]
        exact .intro (.list (fun e he => (h e he).1) fun e he => (h e he).2) hlist
      refine Yields.pure ⟨fun v hv => ?_, fun hD => ?_⟩
      · rcases List.mem_append.mp hv with hv | hv
        · exact helsewhere v hv
        · cases List.mem_singleton.mp hv
          exact .intro hpacked
      · rw [hconcat]
        refine List.rel_append (hfilled hD) (.cons (.given hpacked ?_) .nil)
        exact Γ.scopes.accepts_refl _

/-!
# Arguments by name
-/

def SeatSound (D : Discipline) (Γ Δ : Context) (seat : Seat) : Prop :=
  seat.param.WellFormed D Δ ∧ ∀ v, seat.value = some v →
    v.WellTyped D Γ ∧ Γ.scopes.accepts seat.param.bodyTy v.ty

theorem give_sound {Δ : Context} (name : String) {value : Typed.Expr} {seats : List Seat}
    (hseats : ∀ seat ∈ seats, SeatSound D Γ Δ seat) (hvalue : value.WellTyped D Γ)
    (haccepts : ∀ seat, Seat.find? name seats = some seat →
      Γ.scopes.accepts seat.param.bodyTy value.ty) :
    (Seat.give name value seats).map Seat.param = seats.map Seat.param ∧
      ∀ seat ∈ Seat.give name value seats, SeatSound D Γ Δ seat := by
  induction seats with
  | nil => exact ⟨rfl, fun _ h => absurd h List.not_mem_nil⟩
  | cons seat seats ih =>
      rcases List.forall_mem_cons.mp hseats with ⟨hhead, htail⟩
      unfold Seat.give
      by_cases hname : seat.param.name = name
      · rw [if_pos hname]
        have hfound : Seat.find? name (seat :: seats) = some seat := by
          unfold Seat.find?
          exact List.find?_cons_of_pos (beq_iff_eq.mpr hname)
        refine ⟨rfl, List.forall_mem_cons.mpr ⟨⟨hhead.1, fun v hv => ?_⟩, htail⟩⟩
        cases hv
        exact ⟨hvalue, haccepts seat hfound⟩
      · rw [if_neg hname]
        have hfind : Seat.find? name (seat :: seats) = Seat.find? name seats := by
          unfold Seat.find?
          exact List.find?_cons_of_neg fun h => hname (beq_iff_eq.mp h)
        rcases ih htail fun other h => haccepts other (hfind.trans h) with ⟨hparams, hgiven⟩
        exact ⟨congrArg (seat.param :: ·) hparams, List.forall_mem_cons.mpr ⟨hhead, hgiven⟩⟩

theorem Yields.giveNamed (callee : String) {Δ : Context} {args : List (Ident × Operand)}
    (hargs : ∀ a ∈ args, Operand.Sound D env Γ a.2) {seats : List Seat}
    (hseats : ∀ seat ∈ seats, SeatSound D Γ Δ seat) :
    (CheckM.giveNamed callee args seats).Yields D env Γ fun seats' =>
      seats'.map Seat.param = seats.map Seat.param ∧ ∀ seat ∈ seats', SeatSound D Γ Δ seat := by
  induction args generalizing seats with
  | nil => exact .pure ⟨rfl, hseats⟩
  | cons a rest ih =>
      rcases List.forall_mem_cons.mp hargs with ⟨ha, hrest⟩
      refine Yields.orFail.bind fun seat hseat => Yields.require.bind fun _ _ => ?_
      have hparam := (hseats seat (List.mem_of_find?_eq_some hseat)).1
      refine (ha.confirm hparam.bodyTy).bind fun value hvalue => ?_
      obtain ⟨hparams, hgiven⟩ := give_sound a.1.name hseats hvalue.1
        fun other hother => by
          cases hseat.symm.trans hother
          exact hvalue.2
      exact (ih hrest hgiven).mono fun seats' h => ⟨h.1.trans hparams, h.2⟩

theorem Yields.omitted (callee : String) (span : Span) {Δ : Context} {p : Param}
    (hp : p.WellFormed D Δ) :
    (CheckM.omitted callee span p).Yields D env Γ (Typed.Expr.Fills D Γ p) := by
  have hbody := hp.bodyTy
  rcases hp with ⟨_, hdefault, haccepts⟩
  unfold CheckM.omitted
  cases hvalue : p.default with
  | some value => exact .pure (.default hvalue (hdefault value hvalue) (haccepts value hvalue))
  | none =>
      dsimp only
      split
      next hvariadic =>
        have hlist : p.bodyTy = .list p.ty := by
          unfold Param.bodyTy
          rw [if_pos hvariadic]
        rw [hlist] at hbody ⊢
        refine .pure (.given (.emptyList hbody) ?_)
        rw [hlist]
        exact Γ.scopes.accepts_refl _
      next => exact .fail _ _

theorem Yields.seated (callee : String) (span : Span) {Δ : Context} {seat : Seat}
    (h : SeatSound D Γ Δ seat) :
    (CheckM.seated callee span seat).Yields D env Γ (Typed.Expr.Fills D Γ seat.param) := by
  unfold CheckM.seated
  cases hvalue : seat.value with
  | some value => exact .pure (.given (h.2 value hvalue).1 (h.2 value hvalue).2)
  | none => exact .omitted callee span h.1

theorem elsewhere_of_fills {p : Param} {v : Typed.Expr} (h : v.Fills D Γ p) : v.Elsewhere D := by
  cases h with
  | given hv _ => exact .intro hv
  | default _ hv _ => exact .intro hv

theorem Yields.byName (callee : String) {sig : Signature} {Δ : Context}
    (hsig : sig.WellFormed D Δ) {args : List (Ident × Operand)}
    (hargs : ∀ a ∈ args, Operand.Sound D env Γ a.2) (span : Span) :
    (CheckM.byName callee sig args span).Yields D env Γ (Arranged D Γ sig.params) := by
  rcases hsig with ⟨hparams, _, _⟩
  have hempty : ∀ seat ∈ Seat.ofSignature sig, SeatSound D Γ Δ seat := by
    intro seat hseat
    rcases List.mem_map.mp hseat with ⟨p, hp, rfl⟩
    exact ⟨hparams p hp, fun v hv => by cases hv⟩
  refine (Yields.giveNamed callee hargs hempty).bind fun seats hseats => ?_
  have hseated : List.Forall₂ (fun (seat : Seat) x => CheckM.Yields D env Γ x
      (Typed.Expr.Fills D Γ seat.param)) seats (seats.map (CheckM.seated callee span)) := by
    rw [List.forall₂_map_right_iff, List.forall₂_same]
    exact fun seat hseat => .seated callee span (hseats.2 seat hseat)
  refine (Yields.collect_forall₂ hseated).mono fun values hvalues => ?_
  have hfills : List.Forall₂ (Typed.Expr.Fills D Γ) sig.params values := by
    have hmap : seats.map Seat.param = sig.params := by
      rw [hseats.1, Seat.ofSignature, List.map_map]
      exact List.map_id _
    rw [← hmap, List.forall₂_map_left_iff]
    exact hvalues
  exact ⟨forall_mem_of_forall₂ (hfills.imp fun _ _ => elsewhere_of_fills), fun _ => hfills⟩

theorem Yields.arrange (callee : String) {sig : Signature} {Δ : Context}
    (hsig : sig.WellFormed D Δ) {args : List Argument}
    (hargs : ∀ a ∈ args, Operand.Sound D env Γ a.value) (span : Span) :
    (CheckM.arrange callee sig args span).Yields D env Γ (Arranged D Γ sig.params) := by
  have hnamed : ∀ a ∈ namedOnly args, Operand.Sound D env Γ a.2 :=
    fun a ha => hargs _ (mem_namedOnly.mp ha)
  have hvalues : ∀ o ∈ args.map (·.value), Operand.Sound D env Γ o := by
    intro o ho
    rcases List.mem_map.mp ho with ⟨arg, harg, rfl⟩
    exact hargs arg harg
  unfold CheckM.arrange
  split
  · exact .byName callee hsig (fun a ha => absurd ha List.not_mem_nil) span
  · split
    · exact .byPosition callee hsig hvalues span
    · split
      · exact .byName callee hsig hnamed span
      · exact .fail _ _

end CheckM
end StaticTyping
