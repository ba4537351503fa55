import StaticTyping.Proofs.Elaboration.Outcome
import StaticTyping.Proofs.Soundness.Arguments

/-!
# Rules and the trees they give

Each rule makes a typed tree from the checks of the parts.  If these give typed trees for the parts
of a source tree, then the rule gives one for the whole.
-/

namespace StaticTyping

open CheckM

variable {vars : String → Bool} {env : Env}

/-!
# Operands and arguments
-/

/-- An operand that gives typed expressions for an expression, checked or confirmed. -/
structure Operand.Elaborates (vars : String → Bool) (env : Env) (e : Source.Expr) (o : Operand) :
    Prop where
  check : o.check.Gives vars env (e.Elaborates vars)
  confirm : ∀ ty, (o.confirm ty).Gives vars env (e.Elaborates vars)

/-- An argument that gives typed expressions for an argument as written. -/
structure Argument.Elaborates (vars : String → Bool) (env : Env) (a : Source.Arg) (arg : Argument) :
    Prop where
  name : arg.name = a.name
  value : arg.value.Elaborates vars env a.value

namespace Source.Arg.Elaborates

theorem map_name {args : List Source.Arg} {given : List Typed.Arg}
    (h : List.Forall₂ (Source.Arg.Elaborates vars) args given) :
    given.map Typed.Arg.name = args.map Source.Arg.name := by
  induction h with
  | nil => rfl
  | cons ha _ ih =>
      cases ha with
      | intro => simpa using ih

theorem exists_given {args : List Source.Arg} {vs : List Typed.Expr}
    (h : List.Forall₂ (fun a v => Source.Expr.Elaborates vars a.value v) args vs) :
    ∃ given, List.Forall₂ (Source.Arg.Elaborates vars) args given ∧
      given.map Typed.Arg.value = vs := by
  induction h with
  | nil => exact ⟨[], .nil, rfl⟩
  | @cons a v _ _ ha _ ih =>
      rcases ih with ⟨given, hgiven, rfl⟩
      rcases a with ⟨name, value⟩
      exact ⟨⟨name, v⟩ :: given, .cons (.intro ha) hgiven, rfl⟩

end Source.Arg.Elaborates

/-- Seats with the arguments that are given to them.  Each argument has the first seat of its
name. -/
inductive Seat.Hold : List Seat → List Typed.Arg → Prop where
  | nil : Seat.Hold [] []
  | given {seat seats before a after} : a.IsFor seat.param → seat.value = some a.value →
      Seat.Hold seats (before ++ after) → Seat.Hold (seat :: seats) (before ++ a :: after)
  | free {seat seats args} : (∀ a ∈ args, ¬a.IsFor seat.param) → seat.value = none →
      Seat.Hold seats args → Seat.Hold (seat :: seats) args

def Seat.Takes (span : Span) (seat : Seat) (v : Typed.Expr) : Prop :=
  match seat.value with
  | some w => v = w
  | none => seat.param.default = some v ∨
      seat.param.default = none ∧ seat.param.variadic ∧ v = ⟨.list [], seat.param.bodyTy, span⟩

namespace Seat.Hold

theorem ofSignature (sig : Signature) : Hold (Seat.ofSignature sig) [] := by
  unfold Seat.ofSignature
  induction sig.params with
  | nil => exact .nil
  | cons p ps ih => exact .free (fun a ha => absurd ha List.not_mem_nil) rfl ih

theorem give {seats : List Seat} {args : List Typed.Arg} (h : Hold seats args) {name : Ident}
    {seat : Seat} (hfind : Seat.find? name.name seats = some seat) (hfree : seat.value = none)
    (v : Typed.Expr) : Hold (Seat.give name.name v seats) (args ++ [⟨some name, v⟩]) := by
  induction h with
  | nil => cases hfind
  | given hfor hvalue hold ih =>
      rename_i first seats before a after
      unfold Seat.find? at hfind ih
      unfold Seat.give
      by_cases hname : first.param.name = name.name
      -- the first seat of the name is the one that was found, and this one is not free
      · rw [List.find?_cons_of_pos (by simpa using hname)] at hfind
        cases hfind
        rw [hfree] at hvalue
        cases hvalue
      · rw [List.find?_cons_of_neg (by simpa using hname)] at hfind
        rw [if_neg hname, List.append_assoc, List.cons_append]
        apply Hold.given hfor hvalue
        rw [← List.append_assoc]
        exact ih hfind
  | free hother hvalue hold ih =>
      rename_i first seats args
      unfold Seat.find? at hfind ih
      unfold Seat.give
      by_cases hname : first.param.name = name.name
      · rw [if_pos hname]
        apply Hold.given
        · exact congrArg some hname.symm
        · rfl
        · rwa [List.append_nil]
      · rw [List.find?_cons_of_neg (by simpa using hname)] at hfind
        rw [if_neg hname]
        apply Hold.free
        · intro a ha
          rcases List.mem_append.mp ha with ha | ha
          · exact hother a ha
          · cases List.mem_singleton.mp ha
            intro hfor
            exact hname (Option.some.inj hfor).symm
        · exact hvalue
        · exact ih hfind

theorem seated {span : Span} {seats : List Seat} {args : List Typed.Arg} (h : Hold seats args)
    {vs : List Typed.Expr} (hvs : List.Forall₂ (Seat.Takes span) seats vs) :
    Typed.Arg.Seated span (seats.map Seat.param) args vs := by
  induction h generalizing vs with
  | nil =>
      cases hvs
      exact .nil
  | given hfor hvalue _ ih =>
      cases hvs with
      | cons hv hvs =>
          unfold Seat.Takes at hv
          rw [hvalue] at hv
          cases hv
          exact .given hfor (ih hvs)
  | free hother hvalue _ ih =>
      cases hvs with
      | cons hv hvs =>
          unfold Seat.Takes at hv
          rw [hvalue] at hv
          rcases hv with hdefault | ⟨hdefault, hvariadic, rfl⟩
          · exact .default hother hdefault (ih hvs)
          · exact .empty hother hdefault hvariadic (ih hvs)

end Seat.Hold

theorem forall₂_take_zipWith {α β γ δ : Type} {R : α → β → Prop} {S : α → δ → Prop}
    {f : γ → β → δ} (hf : ∀ {a b}, R a b → ∀ c, S a (f c b)) {as : List α} {bs : List β}
    (h : List.Forall₂ R as bs) (cs : List γ) :
    List.Forall₂ S (as.take cs.length) (List.zipWith f cs bs) := by
  induction h generalizing cs with
  | nil => cases cs <;> exact .nil
  | cons hab _ ih =>
      cases cs with
      | nil => exact .nil
      | cons c cs => exact .cons (hf hab c) (ih cs)

theorem CheckM.forall₂_namedOnly {α : Type} {R : α → Argument → Prop} {as : List α}
    {args : List Argument} (h : List.Forall₂ R as args) (hnamed : args.all (·.name.isSome)) :
    List.Forall₂ (fun a n => R a ⟨some n.1, n.2⟩) as (namedOnly args) := by
  induction h with
  | nil => exact .nil
  | @cons _ arg _ _ ha _ ih =>
      rcases arg with ⟨name, value⟩
      simp only [List.all_cons, Bool.and_eq_true] at hnamed
      rcases Option.isSome_iff_exists.mp hnamed.1 with ⟨name, rfl⟩
      exact .cons ha (ih hnamed.2)

namespace CheckM.Gives

theorem operand {e : Source.Expr} {check : CheckM Typed.Expr}
    (h : check.Gives vars env (e.Elaborates vars)) :
    (Operand.ofExpr e check).Elaborates vars env e := by
  constructor
  · exact h
  · intro ty
    have hadopt : (adoptOr e check ty).Gives vars env (e.Elaborates vars) := by
      rcases e with ⟨kind, span⟩
      unfold adoptOr adopted?
      split
      next literal hliteral =>
        split at hliteral
        next elem hkind =>
          have hkind : kind = .list [] := hkind
          subst hkind
          cases hliteral
          exact .pure (.intro (.list .nil))
        next key value hkind =>
          have hkind : kind = .map [] := hkind
          subst hkind
          cases hliteral
          exact .pure (.intro (.map .nil))
        next => cases hliteral
      next => exact h
    exact hadopt.bind fun typed htyped => anyView.bind fun ok _ =>
      require.bind fun _ _ => .pure htyped

theorem byPosition {callee : String} {sig : Signature} {args : List Source.Arg}
    {os : List Operand} {span : Span}
    (h : List.Forall₂ (fun a o => o.Elaborates vars env a.value) args os)
    (hnames : ∀ a ∈ args, a.name = none) :
    (CheckM.byPosition callee sig os span).Gives vars env fun values =>
      ∃ given, List.Forall₂ (Source.Arg.Elaborates vars) args given ∧
        Typed.Arg.Arranged span sig given values := by
  have hunnamed : ∀ {given : List Typed.Arg},
      List.Forall₂ (Source.Arg.Elaborates vars) args given → ∀ g ∈ given, g.name = none := by
    intro given hgiven g hg
    have hmem : g.name ∈ args.map Source.Arg.name :=
      Source.Arg.Elaborates.map_name hgiven ▸ List.mem_map_of_mem hg
    rcases List.mem_map.mp hmem with ⟨a, ha, hname⟩
    exact hname ▸ hnames a ha
  apply require.bind
  intro _ hfits
  have hlength : sig.fixedParams.length ≤ args.length := by
    rw [h.length_eq]
    exact Signature.length_fixedParams_le_of_fits hfits
  have hfixed : (CheckM.collect (List.zipWith (fun p arg => arg.confirm p.ty) sig.fixedParams
      os)).Gives vars env (List.Forall₂ (fun a v => Source.Expr.Elaborates vars a.value v)
        (args.take sig.fixedParams.length)) :=
    .collect (forall₂_take_zipWith (fun ho p => ho.confirm p.ty) h sig.fixedParams)
  apply hfixed.bind
  intro values hvalues
  rcases Source.Arg.Elaborates.exists_given hvalues with ⟨fixed, hgiven, rfl⟩
  -- the fixed parameters take the arguments in front; what is left goes to the variadic one
  cases hrest : sig.restParam? with
  | none =>
      have hall : args.take sig.fixedParams.length = args := by
        have hcount := Signature.eq_length_fixedParams_of_fits hrest hfits
        rw [← hcount, ← h.length_eq, List.take_length]
      rw [hall] at hgiven
      apply Gives.pure
      refine ⟨fixed, hgiven, .positional (hunnamed hgiven) hrest ?_⟩
      rw [← hgiven.length_eq, ← CheckM.fixedParams_of_none hrest, ← hall, List.length_take]
      exact Nat.min_eq_left hlength
  | some p =>
      have habsorbed : (CheckM.collect ((os.drop sig.fixedParams.length).map
          (·.confirm p.ty))).Gives vars env
          (List.Forall₂ (fun a v => Source.Expr.Elaborates vars a.value v)
            (args.drop sig.fixedParams.length)) := by
        apply Gives.collect
        rw [List.forall₂_map_right_iff]
        exact (List.forall₂_drop _ h).imp fun _ _ ho => ho.confirm p.ty
      apply habsorbed.bind
      intro absorbed hvalues'
      rcases Source.Arg.Elaborates.exists_given hvalues' with ⟨rest, hgiven', rfl⟩
      have hboth : List.Forall₂ (Source.Arg.Elaborates vars) args (fixed ++ rest) := by
        rw [← List.take_append_drop sig.fixedParams.length args]
        exact List.rel_append hgiven hgiven'
      apply Gives.pure
      refine ⟨fixed ++ rest, hboth, .packed (hunnamed hboth) hrest ?_⟩
      have hcount : fixed.length = sig.fixedParams.length := by
        rw [← hgiven.length_eq, List.length_take, Nat.min_eq_left hlength]
      rw [hcount]
      conv_rhs => rw [(CheckM.fixedParams_of_some hrest).1]
      rw [List.length_append, List.length_singleton]

theorem giveNamed {callee : String} {args : List Source.Arg} {named : List (Ident × Operand)}
    (h : List.Forall₂ (fun a n => a.name = some n.1 ∧ n.2.Elaborates vars env a.value) args named)
    {seats : List Seat} {before : List Typed.Arg} (hseats : Seat.Hold seats before) :
    (CheckM.giveNamed callee named seats).Gives vars env fun seats' =>
      ∃ given, List.Forall₂ (Source.Arg.Elaborates vars) args given ∧
        Seat.Hold seats' (before ++ given) ∧ seats'.map Seat.param = seats.map Seat.param := by
  -- the seats hold the arguments `before`, and each round adds one at the end of them
  induction h generalizing seats before with
  | nil =>
      apply Gives.pure
      refine ⟨[], .nil, ?_, rfl⟩
      rwa [List.append_nil]
  | @cons a n _ _ ha _ ih =>
      apply orFail.bind
      intro seat hfind
      apply require.bind
      intro _ hfree
      apply (ha.2.confirm seat.param.bodyTy).bind
      intro v hv
      have hfree : seat.value = none := Option.isNone_iff_eq_none.mp hfree
      apply (ih (hseats.give hfind hfree v)).mono
      rintro seats' ⟨given, hgiven, hhold, hparams⟩
      refine ⟨⟨some n.1, v⟩ :: given, .cons ?_ hgiven, ?_, ?_⟩
      · rcases a with ⟨name, value⟩
        cases ha.1
        exact .intro hv
      · rwa [List.append_assoc, List.singleton_append] at hhold
      · rw [hparams, Seat.map_param_give]

theorem seated (callee : String) (span : Span) (seat : Seat) :
    (CheckM.seated callee span seat).Gives vars env (Seat.Takes span seat) := by
  rcases seat with ⟨p, value⟩
  cases value with
  | some value => exact .pure rfl
  | none =>
      show (CheckM.omitted callee span p).Gives vars env _
      unfold CheckM.omitted
      split
      next value hdefault => exact .pure (.inl hdefault)
      next hdefault =>
        split
        next hvariadic => exact .pure (.inr ⟨hdefault, hvariadic, rfl⟩)
        next => exact .fail _ _

theorem byName {callee : String} {sig : Signature} {args : List Source.Arg}
    {named : List (Ident × Operand)} {span : Span}
    (h : List.Forall₂ (fun a n => a.name = some n.1 ∧ n.2.Elaborates vars env a.value) args
      named) :
    (CheckM.byName callee sig named span).Gives vars env fun values =>
      ∃ given, List.Forall₂ (Source.Arg.Elaborates vars) args given ∧
        Typed.Arg.Arranged span sig given values := by
  apply (giveNamed h (Seat.Hold.ofSignature sig)).bind
  rintro seats ⟨given, hgiven, hhold, hparams⟩
  have hvalues : (CheckM.collect (seats.map (CheckM.seated callee span))).Gives vars env
      (List.Forall₂ (Seat.Takes span) seats) := by
    apply Gives.collect
    rw [List.forall₂_map_right_iff]
    exact List.forall₂_same.mpr fun seat _ => seated callee span seat
  apply hvalues.mono
  intro values hvalues
  refine ⟨given, hgiven, .named ?_ ?_⟩
  · intro g hg
    have hmem : g.name ∈ args.map Source.Arg.name :=
      Source.Arg.Elaborates.map_name hgiven ▸ List.mem_map_of_mem hg
    rcases List.mem_map.mp hmem with ⟨a, ha, hname⟩
    rcases List.forall₂_iff_get.mp h with ⟨hlength, hget⟩
    rcases List.mem_iff_get.mp ha with ⟨i, rfl⟩
    rw [← hname, (hget i i.isLt (hlength ▸ i.isLt)).1]
    rfl
  · have hseated := hhold.seated hvalues
    rw [hparams, Seat.ofSignature, List.map_map] at hseated
    simpa [Function.comp_def] using hseated

theorem arrange {callee : String} {sig : Signature} {args : List Source.Arg}
    {arguments : List Argument} {span : Span}
    (h : List.Forall₂ (Argument.Elaborates vars env) args arguments) :
    (CheckM.arrange callee sig arguments span).Gives vars env fun values =>
      ∃ given, List.Forall₂ (Source.Arg.Elaborates vars) args given ∧
        Typed.Arg.Arranged span sig given values := by
  unfold CheckM.arrange
  split
  next hempty =>
    cases List.isEmpty_iff.mp hempty
    cases h
    exact byName .nil
  next =>
    split
    next hpositional =>
      apply byPosition
      · rw [List.forall₂_map_right_iff]
        exact h.imp fun _ _ ha => ha.value
      · intro a ha
        rcases List.forall₂_iff_get.mp h with ⟨hlength, hget⟩
        rcases List.mem_iff_get.mp ha with ⟨i, rfl⟩
        have harg := hget i i.isLt (hlength ▸ i.isLt)
        have hnone := List.all_eq_true.mp hpositional _ (List.get_mem arguments ⟨i, hlength ▸ i.isLt⟩)
        rw [← harg.name]
        exact Option.isNone_iff_eq_none.mp hnone
    next =>
      split
      next hnamed =>
        apply byName
        exact (forall₂_namedOnly h hnamed).imp fun _ _ ha => ⟨ha.name.symm, ha.value⟩
      next => exact .fail _ _

/-!
# Members and calls
-/

theorem valueMember (object : Typed.Expr) (name : Ident) :
    (CheckM.valueMember object name).Gives vars env fun m => m.object = object := by
  unfold CheckM.valueMember
  split
  · exact anyView.bind fun c _ => orFail.bind fun ty _ => .pure rfl
  · exact anyView.bind fun i _ => orFail.bind fun f _ => .pure rfl
  · exact orFail.bind fun ty _ => .pure rfl
  · split
    · exact (importStandard _ _).bind fun _ _ => anyView.bind fun scope _ =>
        orFail.bind fun ty _ => .pure rfl
    · exact .fail _ _

def IsObject (vars : String → Bool) (e : Source.Expr) (m : Member) : Prop :=
  e.Elaborates vars m.object ∨ ∃ var span module, e = ⟨.var var, span⟩ ∧
    m.object = ⟨.var var, .moduleTy module, var.span⟩ ∧ m.access = .member var.name

theorem member {e : Source.Expr} {check : CheckM Typed.Expr}
    (h : check.Gives vars env (e.Elaborates vars)) (name : Ident) :
    (CheckM.member e check name).Gives vars env (IsObject vars e) := by
  rcases e with ⟨kind, span⟩
  have hfound : (importNamed? ⟨kind, span⟩).Gives vars env fun found =>
      ∀ var scope, found = some (var, scope) → kind = .var var := by
    unfold importNamed?
    split
    next var hkind =>
      apply anyView.bind
      intro scope _
      apply Gives.pure
      intro var' scope' heq
      rcases Option.map_eq_some_iff.mp heq with ⟨_, _, hpair⟩
      cases hpair
      exact hkind
    next =>
      apply Gives.pure
      intro _ _ heq
      cases heq
  -- a variable that is the local name of an import is not checked as an expression
  apply hfound.bind
  intro found hfound
  cases found with
  | some pair =>
      rcases pair with ⟨var, scope⟩
      cases hfound var scope rfl
      exact orFail.bind fun ty _ => .pure (.inr ⟨var, span, _, rfl, rfl, rfl⟩)
  | none =>
      apply h.bind
      intro object hobject
      exact (valueMember object name).mono fun m hm => .inl (hm ▸ hobject)

theorem argumentSignature {callee : String} {sig : Signature} {f : Typed.Expr} {count : Nat}
    {line : UInt32} :
    (CheckM.argumentSignature callee sig f count line).Gives vars env (f.Expects sig) := by
  unfold CheckM.argumentSignature
  cases hreceiver : receiver? f with
  | some object =>
      rcases sig with ⟨params, ret⟩
      cases params with
      | nil => exact .fail _ _
      | cons p ps =>
          exact require.bind fun _ haccepts => .pure (.of_receiver?_eq_some hreceiver haccepts)
  | none => exact .pure (.of_receiver?_eq_none hreceiver)

theorem call {e : Source.Expr} {check : CheckM Typed.Expr}
    (h : check.Gives vars env (e.Elaborates vars)) {args : List Source.Arg}
    {arguments : List Argument} (hargs : List.Forall₂ (Argument.Elaborates vars env) args arguments)
    (span : Span) :
    (CheckM.call e check arguments span).Gives vars env fun c =>
      e.Calls vars args span c.callee c.args := by
  apply h.bind
  intro callee hcallee
  apply orFail.bind
  intro sig hsig
  apply argumentSignature.bind
  intro expected hexpected
  apply (arrange hargs).bind
  rintro values ⟨given, hgiven, harranged⟩
  exact .pure (.intro hcallee hsig hexpected hgiven harranged)

/-!
# Declarations
-/

theorem param {name : Ident} {ty : Ty} {variadic : Bool} {default : Option Source.Expr}
    {default? : Option (Source.Expr × Operand)}
    (h : Option.Rel (fun e d => d.2.Elaborates vars env e) default default?) :
    (CheckM.param name ty variadic default?).Gives vars env
      (Source.Param.Elaborates vars ⟨name, ty, variadic, default⟩) := by
  apply resolveTy.bind
  intro ty' hty
  cases h with
  | none => exact .pure (.intro hty .none)
  | some hd =>
      apply Gives.bind (Q := Source.Expr.Elaborates vars _)
      · exact require.bind fun _ _ => hd.confirm _
      · exact fun value hvalue => .pure (.intro hty (.some hvalue))

theorem signature {ps : List Source.Param} {params : List (CheckM Param)} {ret : Option Ty}
    {line : UInt32}
    (h : List.Forall₂ (fun p x => x.Gives vars env (Source.Param.Elaborates vars p)) ps params) :
    (CheckM.signature params ret line).Gives vars env fun sig =>
      List.Forall₂ (Source.Param.Elaborates vars) ps sig.params ∧ Ty.IsResult ret sig.ret :=
  (Gives.collect h).bind fun _ hparams => resultTy.bind fun _ hret => .pure ⟨hparams, hret⟩

theorem implemented (name : Ident) :
    (CheckM.implemented name).Gives vars env (name.Names vars) := by
  apply (valueOf name.name name.line).bind
  intro ty hty
  cases ty with
  | interfaceTy i => exact .pure (hty i rfl)
  | _ => exact .fail _ _

end CheckM.Gives

/-- What a class declares apart from the bodies of its methods. -/
structure Source.ClassDecl.Outlines (vars : String → Bool) (d : Source.ClassDecl) (c : ClassTy) :
    Prop where
  name : c.name = d.name.name
  visibility : c.visibility = d.visibility
  params : List.Forall₂ (Source.Param.Elaborates vars) d.params c.params
  methods : List.Forall₂ (fun m f => Source.Head.Elaborates vars m.head f) d.methods c.methods
  implements : List.Forall₂ (Ident.Names vars) d.implements c.implements

def Source.Method.Elaborating (vars : String → Bool) (env : Env) (m : Source.Method)
    (check : NamedFunction → CheckM Typed.Function) : Prop :=
  ∀ f, m.head.Elaborates vars f → (check f).Gives vars env fun g =>
    g.sig = f ∧ m.Elaborates vars g

namespace CheckM.Gives

theorem classHead {name : Ident} {visibility : Visibility} {ps : List Source.Param}
    {params : List (CheckM Param)}
    (hparams : List.Forall₂ (fun p x => x.Gives vars env (Source.Param.Elaborates vars p)) ps params)
    {ms : List Source.Method} {methods : List (CheckM NamedFunction)}
    (hmethods : List.Forall₂ (fun m x => x.Gives vars env (Source.Head.Elaborates vars m.head)) ms
      methods) (names : List Ident) :
    (CheckM.classHead name visibility params methods names).Gives vars env
      (Source.ClassDecl.Outlines vars ⟨name, visibility, ps, ms, names⟩) := by
  have hnames : (CheckM.collect (names.map CheckM.implemented)).Gives vars env
      (List.Forall₂ (Ident.Names vars) names) := by
    apply Gives.collect
    rw [List.forall₂_map_right_iff]
    exact List.forall₂_same.mpr fun name _ => implemented name
  exact (Gives.collect hparams).bind fun params hparams => (Gives.collect hmethods).bind
    fun methods hmethods => hnames.bind fun is his =>
      .pure ⟨rfl, rfl, hparams, hmethods, his⟩

theorem interfaceDecl {name : Ident} {visibility : Visibility} {rs : List Source.Requirement}
    {methods : List (CheckM NamedFunction)}
    (h : List.Forall₂ (fun r x => x.Gives vars env (Source.Requirement.Elaborates vars r)) rs methods)
    (span : Span) :
    (CheckM.interfaceDecl (CheckM.interfaceHead name visibility methods) span).Gives vars env
      (Source.Stmt.Elaborates vars ⟨.interfaceDecl ⟨name, visibility, rs⟩, span⟩) := by
  apply Gives.bind (Q := fun i => List.Forall₂ (Source.Requirement.Elaborates vars) rs i.methods ∧
    i = ⟨name.name, i.methods, visibility⟩)
  · exact (Gives.collect h).bind fun methods hmethods => .pure ⟨hmethods, rfl⟩
  · rintro i ⟨hmethods, hi⟩
    have hbindings : ∀ b ∈ interfaceBindings i, b.2.CalledBy vars b.1 := by
      intro b hb
      rcases List.mem_cons.mp hb with rfl | hb
      · intro i' hi'
        cases hi'
        exact .inl rfl
      · rcases List.mem_map.mp hb with ⟨f, _, rfl⟩
        intro i' hi'
        cases hi'
    apply (declareAll hbindings).bind
    intro _ _
    rw [hi]
    exact .pure (.intro (.interfaceDecl hmethods))

theorem initialValue {name : Ident} {ty : Ty} {e : Option Source.Expr} {init : Option Operand}
    {span : Span} (h : Option.Rel (Operand.Elaborates vars env) e init) :
    (CheckM.initialValue name ty init span).Gives vars env fun value =>
      match e with
      | some e => e.Elaborates vars value
      | none => ty.initial? span = some value := by
  cases h with
  | none => exact orFail
  | some ho => exact ho.confirm ty

theorem binding {name : Ident} {isMutable : Bool} {written : Option Ty} {e : Option Source.Expr}
    {init : Option Operand} (h : Option.Rel (Operand.Elaborates vars env) e init) (span : Span)
    (hname : vars name.name) :
    (CheckM.binding name isMutable written init span).Gives vars env
      (Source.Stmt.Elaborates vars ⟨.binding ⟨name, isMutable, written, e⟩, span⟩) := by
  have hvalue : (bindingValue name written init span).Gives vars env fun bound =>
      Source.Stmt.Elaborates vars ⟨.binding ⟨name, isMutable, written, e⟩, span⟩
        ⟨.binding name isMutable written.isSome bound.1 bound.2, span⟩ := by
    cases written with
    | some w =>
        apply resolveTy.bind
        intro ty hty
        apply (initialValue h).bind
        intro value hvalue
        apply Gives.pure
        cases e with
        | none => exact .intro (.bindingInitial hty hvalue)
        | some e =>
            refine .intro (.binding hvalue (fun w' hw => ?_) fun hnone => ?_)
            · cases hw
              exact hty
            · cases hnone
    | none =>
        cases h with
        | none => exact .fail _ _
        | some ho =>
            apply ho.check.bind
            intro value hvalue
            apply Gives.pure
            refine .intro (.binding hvalue (fun w hw => ?_) fun _ => rfl)
            cases hw
  apply inStmt
  apply hvalue.bind
  intro bound hbound
  exact (declare fun _ _ => .inr hname).bind fun _ _ => .pure hbound

theorem functionBody {sig : Signature} (hparams : ∀ p ∈ sig.params, vars p.name)
    {b : Source.Block} {body : CheckM Typed.Block} (h : body.Gives vars env (b.Elaborates vars))
    (line : UInt32) : (CheckM.functionBody sig body line).Gives vars env (b.Elaborates vars) := by
  have hbindings : ∀ b ∈ sig.params.map (fun p => (p.name, p.bodyTy)),
      b.2.CalledBy vars b.1 := by
    intro b hb
    rcases List.mem_map.mp hb with ⟨p, hp, rfl⟩
    exact fun _ _ => .inr (hparams p hp)
  exact inStmt _ (inScope ((declareAll hbindings).bind fun _ _ => h.bind fun _ hbody =>
    require.bind fun _ _ => .pure hbody))

theorem functionOf (name : Ident) {sig : NamedFunction} (hparams : ∀ p ∈ sig.sig.params, vars p.name)
    {b : Source.Block} {body : CheckM Typed.Block} (h : body.Gives vars env (b.Elaborates vars))
    (line : UInt32) :
    (CheckM.functionOf name body line sig).Gives vars env fun f =>
      f.name = name ∧ f.sig = sig ∧ b.Elaborates vars f.body :=
  (functionBody hparams h line).bind fun _ hbody => .pure ⟨rfl, rfl, hbody⟩

theorem functionDecl {d : Source.Head} {sig : CheckM NamedFunction}
    (hsig : sig.Gives vars env fun f => d.Elaborates vars f ∧ ∀ p ∈ f.sig.params, vars p.name)
    {b : Source.Block} {body : CheckM Typed.Block} (h : body.Gives vars env (b.Elaborates vars))
    (span : Span) :
    (CheckM.functionDecl d.name sig body span).Gives vars env
      (Source.Stmt.Elaborates vars ⟨.function d b, span⟩) := by
  apply hsig.bind
  rintro f ⟨hf, hparams⟩
  have hcalled : (Ty.named f).CalledBy vars d.name.name := by
    intro i hi
    cases hi
  apply (declare hcalled).bind
  intro _ _
  apply (functionOf d.name hparams h span.line).bind
  rintro ⟨name, sig, body⟩ ⟨rfl, rfl, hbody⟩
  exact .pure (.intro (.function hf hbody))

theorem requireInterfaces (c : ClassTy) (line : UInt32) (is : List InterfaceTy) :
    (CheckM.requireInterfaces c line is).Gives vars env fun _ => True := by
  induction is with
  | nil => exact .pure trivial
  | cons i rest ih =>
      unfold CheckM.requireInterfaces
      cases c.unprovided? i with
      | some f => exact .fail _ _
      | none => exact ih

theorem methods {ms : List Source.Method} {checks : List (NamedFunction → CheckM Typed.Function)}
    (hchecks : List.Forall₂ (Source.Method.Elaborating vars env) ms checks)
    {fs : List NamedFunction}
    (hheads : List.Forall₂ (fun m f => Source.Head.Elaborates vars m.head f) ms fs) :
    (CheckM.collect (List.zipWith (fun check f => check f) checks fs)).Gives vars env fun gs =>
      gs.map Typed.Function.sig = fs ∧ List.Forall₂ (Source.Method.Elaborates vars) ms gs := by
  induction hchecks generalizing fs with
  | nil =>
      cases hheads
      exact .pure ⟨rfl, .nil⟩
  | cons hcheck _ ih =>
      cases hheads with
      | cons hhead hheads =>
          apply (hcheck _ hhead).bind
          rintro g ⟨rfl, hg⟩
          apply (ih hheads).bind
          rintro gs ⟨rfl, hgs⟩
          exact .pure ⟨rfl, .cons hg hgs⟩

theorem classDecl {d : Source.ClassDecl} {sig : CheckM ClassTy}
    (hsig : sig.Gives vars env (d.Outlines vars))
    {checks : List (NamedFunction → CheckM Typed.Function)}
    (hchecks : List.Forall₂ (Source.Method.Elaborating vars env) d.methods checks) (span : Span) :
    (CheckM.classDecl d.name sig checks span).Gives vars env
      (Source.Stmt.Elaborates vars ⟨.classDecl d, span⟩) := by
  rcases d with ⟨name, visibility, ps, ms, names⟩
  apply hsig.bind
  rintro ⟨cname, params, fs, is, cvisibility⟩ ⟨hname, hvisibility, hparams, hmethods, his⟩
  cases hname
  cases hvisibility
  have hcalled : (Ty.classTy ⟨name.name, params, fs, is, visibility⟩).CalledBy vars name.name := by
    intro i hi
    cases hi
  apply (declare hcalled).bind
  intro _ _
  apply Gives.bind (inStmt _ (inScope (inClass _ (methods hchecks hmethods))))
  rintro gs ⟨rfl, hgs⟩
  exact (requireInterfaces _ _ _).bind fun _ _ => .pure (.intro (.classDecl hparams hgs his))

/-!
# Expressions
-/

theorem listLiteral {es : List Source.Expr} {items : List Operand}
    (h : List.Forall₂ (Operand.Elaborates vars env) es items) (span : Span) :
    (CheckM.listLiteral items span).Gives vars env (Source.Expr.Elaborates vars ⟨.list es, span⟩) := by
  cases h with
  | nil => exact .pure (.intro (.list .nil))
  | cons hfirst hrest =>
      apply hfirst.check.bind
      intro first hfirst
      apply Gives.bind (Gives.collect ((List.forall₂_map_right_iff).mpr
        (hrest.imp fun _ _ ho => ho.confirm first.ty)))
      exact fun rest hrest => .pure (.intro (.list (.cons hfirst hrest)))

theorem mapLiteral {es : List Source.Entry} {entries : List (Operand × Operand)}
    (h : List.Forall₂ (fun e o => o.1.Elaborates vars env e.key ∧ o.2.Elaborates vars env e.value) es
      entries) (span : Span) :
    (CheckM.mapLiteral entries span).Gives vars env (Source.Expr.Elaborates vars ⟨.map es, span⟩) := by
  cases h with
  | nil => exact .pure (.intro (.map .nil))
  | @cons first _ es entries hfirst hrest =>
      rcases first with ⟨firstKey, firstValue⟩
      apply hfirst.1.check.bind
      intro key hkey
      apply hfirst.2.check.bind
      intro value hvalue
      have hentries : (CheckM.collect (entries.map (mapEntry key.ty value.ty))).Gives vars env
          (List.Forall₂ (Source.Entry.Elaborates vars) es) := by
        apply Gives.collect
        rw [List.forall₂_map_right_iff]
        apply hrest.imp
        rintro ⟨key, value⟩ o ho
        exact (ho.1.confirm _).bind fun key hkey => (ho.2.confirm _).bind fun value hvalue =>
          .pure (.intro hkey hvalue)
      exact hentries.bind fun rest hrest => .pure (.intro (.map (.cons (.intro hkey hvalue) hrest)))

theorem isTest {e : Source.Expr} {value : CheckM Typed.Expr}
    (h : value.Gives vars env (e.Elaborates vars)) (name : Ident) (span : Span) :
    (CheckM.isTest value name span).Gives vars env
      (Source.Expr.Elaborates vars ⟨.is e name, span⟩) := by
  apply h.bind
  intro value hvalue
  apply (valueOf name.name name.line).bind
  intro ty hty
  cases ty with
  | interfaceTy i => exact .pure (.intro (.is hvalue (hty i rfl)))
  | _ => exact .fail _ _

theorem getExpr {e : Source.Expr} {check : CheckM Typed.Expr}
    (h : check.Gives vars env (e.Elaborates vars)) (name : Ident) (span : Span) :
    (CheckM.getExpr (CheckM.member e check name) name span).Gives vars env
      (Source.Expr.Elaborates vars ⟨.get e name, span⟩) := by
  apply (member h name).bind
  rintro ⟨object, access, ty⟩ (hobject | ⟨var, span', module, rfl, rfl, rfl⟩)
  · exact .pure (.intro (.get hobject))
  · exact .pure (.intro .getImported)

theorem setExpr {e : Source.Expr} {check : CheckM Typed.Expr}
    (h : check.Gives vars env (e.Elaborates vars)) (name : Ident) {v : Source.Expr}
    {value : Operand} (hvalue : value.Elaborates vars env v) (span : Span) :
    (CheckM.setExpr (CheckM.settableMember e check name) name value span).Gives vars env
      (Source.Expr.Elaborates vars ⟨.set e name v, span⟩) := by
  apply ((member h name).mapCause _).bind
  rintro ⟨object, access, ty⟩ hobject
  apply (hvalue.confirm ty).bind
  intro value hvalue
  rcases hobject with hobject | ⟨var, span', module, rfl, rfl, rfl⟩
  · exact .pure (.intro (.set hobject hvalue))
  · exact .pure (.intro (.setImported hvalue))

theorem block {ss : List Source.Stmt} {stmts : List (CheckM Typed.Stmt)}
    (h : List.Forall₂ (fun s x => x.Gives vars env (Source.Stmt.Elaborates vars s)) ss stmts)
    (span : Span) :
    (CheckM.block stmts span).Gives vars env (Source.Block.Elaborates vars ⟨ss, span⟩) :=
  inExpr _ (inScope ((Gives.collect h).bind fun _ hstmts => .pure (.intro hstmts)))

theorem condExpr {c : Source.Expr} {condition : Operand} (hc : condition.Elaborates vars env c)
    {b : Source.Block} {thenBranch : CheckM Typed.Block}
    (hb : thenBranch.Gives vars env (b.Elaborates vars)) {e : Option Source.Expr}
    {otherwise : Option (CheckM Typed.Expr)}
    (he : Option.Rel (fun e x => x.Gives vars env (Source.Expr.Elaborates vars e)) e otherwise)
    (span : Span) :
    (CheckM.condExpr condition thenBranch otherwise span).Gives vars env
      (Source.Expr.Elaborates vars ⟨.cond c b e, span⟩) := by
  apply (hc.confirm _).bind
  intro condition hcondition
  apply hb.bind
  intro thenBranch hthen
  have helse : (elseBranch thenBranch.ty otherwise).Gives vars env
      (Option.Rel (Source.Expr.Elaborates vars) e) := by
    cases he with
    | none => exact .pure .none
    | some hx => exact hx.bind fun _ hbranch => require.bind fun _ _ => .pure (.some hbranch)
  exact helse.bind fun _ helse => .pure (.intro (.cond hcondition hthen helse))

/-!
# Statements
-/

theorem forLoop {i : Option Source.Stmt} {init : Option (CheckM Typed.Stmt)}
    (hi : Option.Rel (fun s x => x.Gives vars env (Source.Stmt.Elaborates vars s)) i init)
    {c n : Option Source.Expr} {condition increment : Option Operand}
    (hc : Option.Rel (Operand.Elaborates vars env) c condition)
    (hn : Option.Rel (Operand.Elaborates vars env) n increment) {ss : List Source.Stmt}
    {body : List (CheckM Typed.Stmt)}
    (hbody : List.Forall₂ (fun s x => x.Gives vars env (Source.Stmt.Elaborates vars s)) ss body)
    (span : Span) :
    (CheckM.forLoop init condition increment body span).Gives vars env
      (Source.Stmt.Elaborates vars ⟨.forLoop i c n ss, span⟩) := by
  have hcondition : (CheckM.optional (condition.map (·.confirm .bool))).Gives vars env
      (Option.Rel (Source.Expr.Elaborates vars) c) := by
    apply Gives.optional
    cases hc with
    | none => exact .none
    | some ho => exact .some (ho.confirm _)
  have hincrement : (CheckM.optional (increment.map (·.check))).Gives vars env
      (Option.Rel (Source.Expr.Elaborates vars) n) := by
    apply Gives.optional
    cases hn with
    | none => exact .none
    | some ho => exact .some ho.check
  exact inStmt _ (inScope ((Gives.optional hi).bind fun _ hinit => hcondition.bind
    fun _ hcondition => hincrement.bind fun _ hincrement => (Gives.collect hbody).bind
    fun _ hbody => .pure (.intro (.forLoop hinit hcondition hincrement hbody))))

theorem forEach {name : Ident} (hname : vars name.name) {e : Source.Expr}
    {iterable : CheckM Typed.Expr} (h : iterable.Gives vars env (e.Elaborates vars))
    {ss : List Source.Stmt} {body : List (CheckM Typed.Stmt)}
    (hbody : List.Forall₂ (fun s x => x.Gives vars env (Source.Stmt.Elaborates vars s)) ss body)
    (span : Span) :
    (CheckM.forEach name iterable body span).Gives vars env
      (Source.Stmt.Elaborates vars ⟨.forEach name e ss, span⟩) :=
  inStmt _ (inScope (h.bind fun _ hiterable => orFail.bind fun _ _ =>
    (declare fun _ _ => .inr hname).bind fun _ _ => (Gives.collect hbody).bind fun _ hbody =>
    .pure (.intro (.forEach hiterable hbody))))

theorem whileLoop {c : Source.Expr} {condition : Operand} (h : condition.Elaborates vars env c)
    {ss : List Source.Stmt} {body : List (CheckM Typed.Stmt)}
    (hbody : List.Forall₂ (fun s x => x.Gives vars env (Source.Stmt.Elaborates vars s)) ss body)
    (span : Span) :
    (CheckM.whileLoop condition body span).Gives vars env
      (Source.Stmt.Elaborates vars ⟨.whileLoop c ss, span⟩) :=
  inStmt _ (inScope ((h.confirm _).bind fun _ hcondition => (Gives.collect hbody).bind
    fun _ hbody => .pure (.intro (.whileLoop hcondition hbody))))

theorem returnStmt {e : Option Source.Expr} {value : Option Operand}
    (h : Option.Rel (Operand.Elaborates vars env) e value) (span : Span) :
    (CheckM.returnStmt value span).Gives vars env
      (Source.Stmt.Elaborates vars ⟨.ret e, span⟩) := by
  have hvalue : (CheckM.optional (value.map (·.check))).Gives vars env
      (Option.Rel (Source.Expr.Elaborates vars) e) := by
    apply Gives.optional
    cases h with
    | none => exact .none
    | some ho => exact .some ho.check
  exact inStmt _ (hvalue.bind fun _ hvalue => .pure (.intro (.ret hvalue)))

/-!
# Imports
-/

def LoaderCalls (vars : String → Bool) (load : Loader) : Prop :=
  ∀ package (σ : Session), σ.Calls vars → (load package σ).2.Calls vars

theorem importModule (hload : LoaderCalls vars env.load) (i : Source.Import) :
    (CheckM.importModule i).Gives vars env (· = ⟨i.package.name, i.space⟩) := by
  apply Gives.bind (Q := fun _ => True)
  · intro s hs
    have hloaded := hload i.package.name s.session hs
    unfold CheckM.loadPackage
    generalize env.load i.package.name s.session = loaded at hloaded ⊢
    rcases loaded with ⟨r, σ⟩
    constructor
    · cases r with
      | ok m => exact hloaded
      | error e => cases e <;> exact hloaded
    · exact fun _ _ => trivial
  · intro m _
    apply Gives.bind (Q := fun _ => True)
    · exact fun s hs => ⟨hs, fun _ _ => trivial⟩
    · exact fun _ _ => .pure rfl

theorem importsStmt (hload : LoaderCalls vars env.load) (imports : List Source.Import)
    (span : Span) :
    (CheckM.importsStmt imports span).Gives vars env
      (Source.Stmt.Elaborates vars ⟨.importMany imports, span⟩) := by
  have htargets : (CheckM.collect (imports.map CheckM.importModule)).Gives vars env
      (· = imports.map fun i => ⟨i.package.name, i.space⟩) := by
    induction imports with
    | nil => exact .pure rfl
    | cons i rest ih =>
        apply (importModule hload i).bind
        rintro _ rfl
        exact ih.bind fun _ hrest => .pure (by rw [hrest, List.map_cons])
  apply htargets.bind
  rintro _ rfl
  exact .pure (.intro .importMany)

end CheckM.Gives
end StaticTyping
