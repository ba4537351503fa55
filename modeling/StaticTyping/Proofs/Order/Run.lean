import StaticTyping.Proofs.Soundness.Outline

/-!
# Runs without a report

The passes over a file go on after a fault, but then something is reported, and what is reported
stays so.  A pass without a report is therefore a run of checks that all succeed, one after
another.  Two neighbours in such a run change places if they come to the same in either order.
-/

namespace StaticTyping

open CheckM

variable {α β : Type}

def Frame.reporting (env : Env) : Frame env {} where
  rel s t := s.report.reported → t.report.reported
  imports := True
  one _ := .inl trivial
  many _ := .inl trivial
  refl _ := id
  trans h h' := h' ∘ h
  declare _ _ _ := id
  standard _ s := by
    rw [importStandard_apply]
    exact id
  importModule _ i s := by
    show _ → (CheckM.bind (CheckM.loadPackage i.package.name i.span.line) _ env s).2.report.reported
    unfold CheckM.bind CheckM.loadPackage
    rcases env.load i.package.name s.session with ⟨r, τ⟩
    cases r with
    | ok m => exact id
    | error e =>
        cases e with
        | failed errors => exact Batch.reported_extend errors
        | _ => exact id
  inScope h := h
  inStmt h := h
  inExpr h := h
  inClass h := h
  report _ d s _ := s.report.reported_push d

theorem CheckM.attempt_apply_of_ok {x : CheckM α} {env : Env} {s t : State} {a : α}
    (h : x env s = (.ok a, t)) : attempt x env s = (.ok (some a), t) := by
  unfold CheckM.attempt
  rw [h]

theorem CheckM.attempt_apply_of_error {x : CheckM α} {env : Env} {s t : State} {e : Fault}
    (h : x env s = (.error e, t)) :
    attempt x env s = (.ok none, { t with report := t.report.push (e.diagnose env.file) }) := by
  unfold CheckM.attempt
  rw [h]

theorem CheckM.attempt_session (x : CheckM α) (env : Env) (s : State) :
    (x.attempt env s).2.session = (x env s).2.session := by
  unfold CheckM.attempt
  rcases x env s with ⟨r, t⟩
  cases r <;> rfl

/-- A check gives a value, and nothing is reported. -/
structure CheckM.Succeeds (env : Env) (x : CheckM α) (s : State) (a : α) (t : State) : Prop where
  value : x env s = (.ok a, t)
  quiet : t.report.reported = false

abbrev CheckM.Reporting (env : Env) (x : CheckM α) : Prop :=
  (Frame.reporting env).Keeps x

namespace CheckM.Succeeds

variable {env : Env} {s t u : State}

theorem bind_iff {x : CheckM α} {f : α → CheckM β} (hf : ∀ a, (f a).Reporting env) {b : β} :
    (x >>= f).Succeeds env s b u ↔ ∃ a t, x.Succeeds env s a t ∧ (f a).Succeeds env t b u := by
  constructor
  · rintro ⟨hrun, hquiet⟩
    rcases bind_apply_eq_ok.mp hrun with ⟨a, t, hx, hfa⟩
    have hkept := hf a t
    rw [hfa] at hkept
    have hbefore : t.report.reported = false :=
      Bool.eq_false_iff.mpr fun h => Bool.false_ne_true (hquiet.symm.trans (hkept h))
    exact ⟨a, t, ⟨hx, hbefore⟩, ⟨hfa, hquiet⟩⟩
  · rintro ⟨a, t, hx, hfa⟩
    exact ⟨bind_apply_eq_ok.mpr ⟨a, t, hx.value, hfa.value⟩, hfa.quiet⟩

theorem pure_iff {a b : α} :
    (pure a : CheckM α).Succeeds env s b t ↔ b = a ∧ t = s ∧ s.report.reported = false := by
  constructor
  · rintro ⟨hrun, hquiet⟩
    cases hrun
    exact ⟨rfl, rfl, hquiet⟩
  · rintro ⟨rfl, rfl, hquiet⟩
    exact ⟨rfl, hquiet⟩

theorem attempt_iff {x : CheckM α} {o : Option α} :
    (attempt x).Succeeds env s o t ↔ ∃ a, o = some a ∧ x.Succeeds env s a t := by
  constructor
  · rintro ⟨hrun, hquiet⟩
    rcases hx : x env s with ⟨r, t'⟩
    cases r with
    | ok a =>
        rw [attempt_apply_of_ok hx] at hrun
        cases hrun
        exact ⟨a, rfl, hx, hquiet⟩
    | error e =>
        rw [attempt_apply_of_error hx] at hrun
        cases hrun
        exact (Bool.false_ne_true (hquiet.symm.trans (Batch.reported_push _ _))).elim
  · rintro ⟨a, rfl, hx⟩
    exact ⟨attempt_apply_of_ok hx.value, hx.quiet⟩

/-!
# Neighbours in a run
-/

variable {f : α → CheckM β}

theorem collect_reporting (hf : ∀ a, (f a).Reporting env) (as : List α) :
    (collect (as.map f)).Reporting env := by
  refine Closure.Has.collect fun x hx => ?_
  rcases List.mem_map.mp hx with ⟨a, _, rfl⟩
  exact hf a

theorem collect_cons_iff (hf : ∀ a, (f a).Reporting env) {a : α} {as : List α} {bs : List β} :
    (collect ((a :: as).map f)).Succeeds env s bs u ↔ ∃ b bs' t, bs = b :: bs' ∧
      (f a).Succeeds env s b t ∧ (collect (as.map f)).Succeeds env t bs' u := by
  have hrest : ∀ b, (do
      let bs ← collect (as.map f)
      pure (b :: bs)).Reporting env :=
    fun b => (collect_reporting hf as).bind fun bs => .pure (b :: bs)
  show (f a >>= fun b => collect (as.map f) >>= fun bs => pure (b :: bs)).Succeeds env s bs u ↔ _
  rw [bind_iff hrest]
  constructor
  · rintro ⟨b, t, hb, hbs⟩
    rcases (bind_iff fun bs => .pure (b :: bs)).mp hbs with ⟨bs', t', hbs', hpure⟩
    rcases pure_iff.mp hpure with ⟨rfl, rfl, _⟩
    exact ⟨b, bs', t, rfl, hb, hbs'⟩
  · rintro ⟨b, bs', t, rfl, hb, hbs'⟩
    exact ⟨b, t, hb, (bind_iff fun bs => .pure (b :: bs)).mpr
      ⟨bs', u, hbs', pure_iff.mpr ⟨rfl, rfl, hbs'.quiet⟩⟩⟩

theorem collect_append_iff (hf : ∀ a, (f a).Reporting env) {as as' : List α} {bs : List β} :
    (collect ((as ++ as').map f)).Succeeds env s bs u ↔ ∃ cs cs' t, bs = cs ++ cs' ∧
      cs.length = as.length ∧ (collect (as.map f)).Succeeds env s cs t ∧
      (collect (as'.map f)).Succeeds env t cs' u := by
  induction as generalizing s bs with
  | nil =>
      constructor
      · intro h
        -- nothing is reported at the end, so that nothing was at the start
        have hquiet : s.report.reported = false :=
          Bool.eq_false_iff.mpr fun hs => by
            have hkept := collect_reporting hf as' s hs
            rw [show collect (as'.map f) env s = (.ok bs, u) from h.value] at hkept
            exact Bool.false_ne_true (h.quiet.symm.trans hkept)
        exact ⟨[], bs, s, rfl, rfl, ⟨rfl, hquiet⟩, h⟩
      · rintro ⟨cs, cs', t, rfl, hlength, hcs, hcs'⟩
        cases List.eq_nil_of_length_eq_zero hlength
        rcases pure_iff.mp hcs with ⟨_, rfl, _⟩
        exact hcs'
  | cons a as ih =>
      rw [List.cons_append, collect_cons_iff hf]
      constructor
      · rintro ⟨b, bs', t, rfl, hb, hbs'⟩
        rcases ih.mp hbs' with ⟨cs, cs', t', rfl, hlength, hcs, hcs'⟩
        exact ⟨b :: cs, cs', t', rfl, congrArg (· + 1) hlength,
          (collect_cons_iff hf).mpr ⟨b, cs, t, rfl, hb, hcs⟩, hcs'⟩
      · rintro ⟨cs, cs', t, rfl, hlength, hcs, hcs'⟩
        rcases (collect_cons_iff hf).mp hcs with ⟨b, cs, t', rfl, hb, hcs⟩
        exact ⟨b, cs ++ cs', t', rfl, hb,
          ih.mpr ⟨cs, cs', t, rfl, Nat.succ.inj hlength, hcs, hcs'⟩⟩

theorem collect_exchange (hf : ∀ a, (f a).Reporting env) {l r : List α} {x y : α} {bs : List β}
    (h : (collect ((l ++ x :: y :: r).map f)).Succeeds env s bs u)
    (hexchange : ∀ {l' s₁ x' s₂ y' s₃}, (collect (l.map f)).Succeeds env s l' s₁ →
      (f x).Succeeds env s₁ x' s₂ → (f y).Succeeds env s₂ y' s₃ →
      ∃ v, (f y).Succeeds env s₁ y' v ∧ (f x).Succeeds env v x' s₃) :
    ∃ l' x' y' r', bs = l' ++ x' :: y' :: r' ∧ l'.length = l.length ∧
      (∃ s t, (f x).Succeeds env s x' t) ∧ (∃ s t, (f y).Succeeds env s y' t) ∧
      (collect ((l ++ y :: x :: r).map f)).Succeeds env s (l' ++ y' :: x' :: r') u := by
  rcases (collect_append_iff hf).mp h with ⟨l', _, s₁, rfl, hlength, hl, hrest⟩
  rcases (collect_cons_iff hf).mp hrest with ⟨x', _, s₂, rfl, hx, hrest⟩
  rcases (collect_cons_iff hf).mp hrest with ⟨y', r', s₃, rfl, hy, hr⟩
  rcases hexchange hl hx hy with ⟨v, hy', hx'⟩
  refine ⟨l', x', y', r', rfl, hlength, ⟨s₁, s₂, hx⟩, ⟨s₂, s₃, hy⟩, ?_⟩
  exact (collect_append_iff hf).mpr ⟨l', _, s₁, rfl, hlength, hl,
    (collect_cons_iff hf).mpr ⟨y', _, v, rfl, hy',
      (collect_cons_iff hf).mpr ⟨x', r', s₃, rfl, hx', hr⟩⟩⟩

theorem collect_attempt_iff (hf : ∀ a, (f a).Reporting env) {as : List α} {os : List (Option β)} :
    (collect (as.map fun a => attempt (f a))).Succeeds env s os t ↔
      ∃ bs, os = bs.map some ∧ (collect (as.map f)).Succeeds env s bs t := by
  have hattempt : ∀ a, (attempt (f a)).Reporting env :=
    fun a => .attempt (Closure.attempts _ trivial) (hf a)
  induction as generalizing s os with
  | nil =>
      constructor
      · intro h
        rcases pure_iff.mp h with ⟨rfl, rfl, hquiet⟩
        exact ⟨[], rfl, pure_iff.mpr ⟨rfl, rfl, hquiet⟩⟩
      · rintro ⟨bs, rfl, h⟩
        rcases pure_iff.mp h with ⟨rfl, rfl, hquiet⟩
        exact pure_iff.mpr ⟨rfl, rfl, hquiet⟩
  | cons a as ih =>
      rw [collect_cons_iff hattempt]
      constructor
      · rintro ⟨o, os, u, rfl, ho, hos⟩
        rcases attempt_iff.mp ho with ⟨b, rfl, hb⟩
        rcases ih.mp hos with ⟨bs, rfl, hbs⟩
        exact ⟨b :: bs, rfl, (collect_cons_iff hf).mpr ⟨b, bs, u, rfl, hb, hbs⟩⟩
      · rintro ⟨bs, rfl, h⟩
        rcases (collect_cons_iff hf).mp h with ⟨b, bs, u, rfl, hb, hbs⟩
        exact ⟨some b, bs.map some, u, rfl, attempt_iff.mpr ⟨b, rfl, hb⟩,
          ih.mpr ⟨bs, rfl, hbs⟩⟩

end CheckM.Succeeds

theorem CheckM.Quietly.of_succeeds {D : Discipline} {env : Surroundings} {x : CheckM α}
    {Q : Context → α → Context → Prop} (h : x.Quietly D env Q) {s t : State} {a : α}
    (hs : s.WellFormed D) (hrun : x.Succeeds env s a t) :
    t.WellFormed D ∧ Q (s.context env) a (t.context env) := by
  have houtcome := h s hs
  rw [hrun.value] at houtcome
  exact ⟨houtcome.wellFormed, houtcome.value rfl hrun.quiet⟩

end StaticTyping
