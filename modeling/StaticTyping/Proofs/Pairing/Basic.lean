import StaticTyping.Proofs.Comments.Tables
import StaticTyping.Proofs.Formation

/-!
# Two runs side by side

Much of what is said about checks compares two runs: of the same file in two sessions, of a file
with and without its comments, of a second attempt with the first.  The sessions are related in
some way that every step keeps; what the runs give is the same, apart from comments.  The first run
may be one that need not succeed: then nothing is said if it ends in a fault.
-/

namespace StaticTyping

open CheckM Source

/-- How two runs are alike. -/
structure Likeness where
  /-- What comments are left out of what the first run gives, and the second. -/
  cut : Cut
  cut' : Cut
  /-- Whether the second run is on sources without comments. -/
  source : Bool
  /-- Whether the first run may end in a fault where the second does not. -/
  free : Prop
  /-- Whether faults have to be the same. -/
  strict : Prop
  rel : Session → Session → Prop
  report : Batch → Batch → Prop
  dropped : source = true → cut.comments = true
  plain : strict → cut = .nothing ∧ cut' = .nothing
  /-- A default value that stands in for an argument. -/
  filled : ∀ {e e' : Typed.Expr}, e.strip cut.defaults = e'.strip cut'.defaults →
    e.strip cut = e'.strip cut'
  reported : ∀ {r r'}, report r r' → r.reported = r'.reported
  push : ∀ {r r' d d'}, report r r' → (strict → d = d') → report (r.push d) (r'.push d')
  extend : ∀ {r r' e e'}, report r r' → report e e' → report (r.extend e) (r'.extend e')

namespace Likeness

variable (L : Likeness) {α : Type}

abbrev Alike (strip : Cut → α → α) (a a' : α) : Prop :=
  strip L.cut a = strip L.cut' a'

abbrev AlikeOption (strip : Cut → α → α) (o o' : Option α) : Prop :=
  o.map (strip L.cut) = o'.map (strip L.cut')

/-- Two outcomes of loading a package. -/
inductive Loads : Except LoadError ModuleTy × Session → Except LoadError ModuleTy × Session → Prop
  where
  | ok {m m' σ σ'} : L.Alike ModuleTy.strip m m' → L.rel σ σ' → Loads (.ok m, σ) (.ok m', σ')
  | cycle {σ σ'} : L.rel σ σ' → Loads (.error .cycle, σ) (.error .cycle, σ')
  | unavailable {reason σ σ'} : L.rel σ σ' →
      Loads (.error (.unavailable reason), σ) (.error (.unavailable reason), σ')
  | failed {errors errors' σ σ'} : L.report errors errors' → L.rel σ σ' →
      Loads (.error (.failed errors), σ) (.error (.failed errors'), σ')
  | free {e σ r} : L.free → Loads (.error e, σ) r

/-!
# Values that are alike
-/

section Alike

variable {L} {β : Type}

theorem eq_of_alike (h : L.strict) {t t' : Ty} (ht : L.Alike Ty.strip t t') : t = t' := by
  rcases L.plain h with ⟨hcut, hcut'⟩
  unfold Likeness.Alike at ht
  rw [hcut, hcut', t.strip_nothing, t'.strip_nothing] at ht
  exact ht

theorem alike_congr {strip : Cut → α → α} {f : α → β} (hf : ∀ cut a, f (strip cut a) = f a)
    {a a' : α} (h : L.Alike strip a a') : f a = f a' := by
  rw [← hf L.cut a, ← hf L.cut' a']
  exact congrArg f h

theorem alike_map {strip : Cut → α → α} {strip' : Cut → β → β} {f : α → β}
    (hf : ∀ cut a, f (strip cut a) = strip' cut (f a)) {a a' : α} (h : L.Alike strip a a') :
    L.Alike strip' (f a) (f a') := by
  unfold Likeness.Alike
  rw [← hf L.cut a, ← hf L.cut' a']
  exact congrArg f h

theorem alike_option {strip : Cut → α → α} {strip' : Cut → β → β} {f : α → Option β}
    (hf : ∀ cut a, f (strip cut a) = (f a).map (strip' cut)) {a a' : α}
    (h : L.Alike strip a a') : L.AlikeOption strip' (f a) (f a') := by
  unfold Likeness.AlikeOption
  rw [← hf L.cut a, ← hf L.cut' a']
  exact congrArg f h

theorem alike_list {strip : Cut → α → α} {as as' : List α}
    (h : List.Forall₂ (L.Alike strip) as as') :
    as.map (strip L.cut) = as'.map (strip L.cut') := by
  induction h with
  | nil => rfl
  | cons ha _ ih => exact congrArg₂ List.cons ha ih

theorem forall₂_of_map {strip : Cut → α → α} {as as' : List α}
    (h : as.map (strip L.cut) = as'.map (strip L.cut')) :
    List.Forall₂ (L.Alike strip) as as' := by
  induction as generalizing as' with
  | nil =>
      cases as' with
      | nil => exact .nil
      | cons _ _ => cases h
  | cons a as ih =>
      cases as' with
      | nil => cases h
      | cons a' as' =>
          rw [List.map_cons, List.map_cons] at h
          injection h with ha has
          exact .cons ha (ih has)

theorem AlikeOption.cases {strip : Cut → α → α} {o o' : Option α}
    (h : L.AlikeOption strip o o') :
    (o = none ∧ o' = none) ∨ ∃ a a', o = some a ∧ o' = some a' ∧ L.Alike strip a a' := by
  cases o with
  | none =>
      cases o' with
      | none => exact .inl ⟨rfl, rfl⟩
      | some _ => cases h
  | some a =>
      cases o' with
      | none => cases h
      | some a' => exact .inr ⟨a, a', rfl, rfl, Option.some.inj h⟩

end Alike

/-!
# Outcomes that match
-/

/-- Two states that are alike.  Of the expressions around a place the innermost is all that
counts. -/
structure States (s s' : State) : Prop where
  session : L.rel s.session s'.session
  classes : s.classes.map (ClassTy.strip L.cut) = s'.classes.map (ClassTy.strip L.cut')
  exprs : s.exprs.top? = s'.exprs.top?
  stmts : s.stmts = s'.stmts
  report : L.report s.report s'.report

/-- Two states that runs from two others lead to: they are alike, and inside the expressions that
the runs started in. -/
structure Ends (s s' t t' : State) : Prop extends L.States t t' where
  level : t.exprs = s.exprs
  level' : t'.exprs = s'.exprs

inductive Match {β : Type} (R : α → β → Prop) (s s' : State) :
    Except Fault α × State → Except Fault β × State → Prop where
  | ok {a b t t'} : R a b → L.Ends s s' t t' → Match R s s' (.ok a, t) (.ok b, t')
  | error {e e' t t'} : (L.strict → e = e') → L.Ends s s' t t' →
      Match R s s' (.error e, t) (.error e', t')
  | free {e t r} : L.free → Match R s s' (.error e, t) r

def Outcomes {β : Type} (env env' : Env) (R : α → β → Prop) (x : CheckM α) (y : CheckM β) : Prop :=
  ∀ s s', L.States s s' → L.Match R s s' (x env s) (y env' s')

abbrev AlikeDefault (e e' : Typed.Expr) : Prop :=
  e.strip L.cut.defaults = e'.strip L.cut'.defaults

def DefaultsAlike (env env' : Env) (c : Source.Condition) : Prop :=
  ∀ {ps}, Met (c.params ps) → ∀ p ∈ ps, ∀ e, p.default = some e →
    ∀ t t', L.Alike Ty.strip t t' → L.Outcomes env env' L.AlikeDefault
      (CheckM.confirm e (Checker.expr e) t)
      (CheckM.confirm (e.strip L.source) (Checker.expr (e.strip L.source)) t')

section Match

variable {L} {β : Type}

theorem States.ends {s s' : State} (h : L.States s s') : L.Ends s s' s s' :=
  ⟨h, rfl, rfl⟩

theorem Ends.trans {s s' t t' u u' : State} (h : L.Ends s s' t t') (h' : L.Ends t t' u u') :
    L.Ends s s' u u' :=
  ⟨h'.toStates, h'.level.trans h.level, h'.level'.trans h.level'⟩

theorem Ends.matching {R : α → β → Prop} {s s' t t' : State} (h : L.Ends s s' t t')
    {r : Except Fault α × State} {r' : Except Fault β × State} (hr : L.Match R t t' r r') :
    L.Match R s s' r r' := by
  cases hr with
  | ok hab hu => exact .ok hab (h.trans hu)
  | error he hu => exact .error he (h.trans hu)
  | free hfree => exact .free hfree

theorem Match.imp {R S : α → β → Prop} (h : ∀ a b, R a b → S a b) {s s' : State}
    {r : Except Fault α × State} {r' : Except Fault β × State} (hr : L.Match R s s' r r') :
    L.Match S s s' r r' := by
  cases hr with
  | ok hab ht => exact .ok (h _ _ hab) ht
  | error he ht => exact .error he ht
  | free hfree => exact .free hfree

end Match

end Likeness

/-- The surroundings of two runs on one file, and a condition on the file under which they are
alike. -/
structure Pairing extends Likeness where
  env : Env
  env' : Env
  condition : Source.Condition
  imports : String → Prop
  one : ∀ {package alias?}, Met (condition.stmt (.importOne package alias?)) → imports package.name
  many : ∀ {packages}, Met (condition.stmt (.importMany packages)) →
    ∀ i ∈ packages, imports i.package.name
  written : ∀ {ty}, Met (condition.ty ty) → ty.strip cut = ty.strip cut'
  blocks : ∀ {b}, Met (condition.expr (.block b)) → source = true → b.closes
  conds : ∀ {e b o}, Met (condition.expr (.cond e b o)) → source = true → b.closes
  lambdas : ∀ {ps ret b}, Met (condition.expr (.lambda ps ret b)) → source = true → b.closes
  functions : ∀ {h b}, Met (condition.stmt (.function h b)) → source = true → b.closes
  methods : ∀ {d}, Met (condition.stmt (.classDecl d)) → source = true →
    ∀ m ∈ d.methods, m.body.closes
  /-- The runs are on sources without comments, unless these count alike. -/
  kept : cut.comments = cut'.comments ∨ source = true ∨
    ∀ {text}, ¬ Met (condition.stmt (.comment text))
  /-- As much is left out of default values as of other expressions, unless those that are admitted
  give the same even so. -/
  defaults : (cut.defaults = cut ∧ cut'.defaults = cut') ∨
    toLikeness.DefaultsAlike env env' condition
  file : strict → env.file = env'.file
  lookup : ∀ {σ σ'}, rel σ σ' → ∀ name,
    (σ.symbols.lookup? env.space name).map (Ty.strip cut) =
      (σ'.symbols.lookup? env'.space name).map (Ty.strip cut')
  prelude : ∀ {σ σ'}, rel σ σ' → ∀ name,
    (σ.symbols.lookup? env.settings.preludeSpace name).map (Ty.strip cut) =
      (σ'.symbols.lookup? env'.settings.preludeSpace name).map (Ty.strip cut')
  imported : ∀ {σ σ'}, rel σ σ' → ∀ name,
    (σ.symbols.imported? env.file name).map (Scope.strip cut) =
      (σ'.symbols.imported? env'.file name).map (Scope.strip cut')
  bind : ∀ {σ σ' ty ty'} name, rel σ σ' → ty.strip cut = ty'.strip cut' →
    rel { σ with symbols := σ.symbols.bind env.space name ty }
      { σ' with symbols := σ'.symbols.bind env'.space name ty' }
  enter : ∀ {σ σ'}, rel σ σ' → rel { σ with symbols := σ.symbols.enter env.space }
    { σ' with symbols := σ'.symbols.enter env'.space }
  leave : ∀ {σ σ'}, rel σ σ' → rel { σ with symbols := σ.symbols.leave env.space }
    { σ' with symbols := σ'.symbols.leave env'.space }
  standard : ∀ {σ σ'} {ty : Ty} {package localName},
    ty.builtinPackage? = some (package, localName) → rel σ σ' →
    rel { σ with symbols := σ.symbols.addStandard env.file package localName }
      { σ' with symbols := σ'.symbols.addStandard env'.file package localName }
  addModule : ∀ {σ σ' m m'} localName, rel σ σ' → m.strip cut = m'.strip cut' →
    rel { σ with symbols := σ.symbols.addModule env.file localName m }
      { σ' with symbols := σ'.symbols.addModule env'.file localName m' }
  load : ∀ {σ σ'} package, imports package → rel σ σ' →
    toLikeness.Loads (env.load package σ) (env'.load package σ')

namespace Pairing

variable (P : Pairing) {α β γ δ : Type}

def Pairs (R : α → β → Prop) (x : CheckM α) (y : CheckM β) : Prop :=
  P.Outcomes P.env P.env' R x y

variable {P}

/-!
# Checks in general
-/

namespace Pairs

variable {R : α → β → Prop} {S : γ → δ → Prop}

theorem pure {a : α} {b : β} (h : R a b) : P.Pairs R (pure a) (pure b) :=
  fun _ _ hs => .ok h hs.ends

theorem fail {cause cause' : Cause} (line : UInt32) (h : P.strict → cause = cause') :
    P.Pairs R (CheckM.fail cause line) (CheckM.fail cause' line) :=
  fun _ _ hs => .error (fun hstrict => congrArg (Fault.mk · line) (h hstrict)) hs.ends

theorem view {f : Env → State → α} {g : Env → State → β}
    (h : ∀ s s', P.States s s' → R (f P.env s) (g P.env' s')) :
    P.Pairs R (CheckM.view f) (CheckM.view g) :=
  fun s s' hs => .ok (h s s' hs) hs.ends

theorem bind {x : CheckM α} {y : CheckM β} {f : α → CheckM γ} {g : β → CheckM δ}
    (hx : P.Pairs R x y) (hf : ∀ a b, R a b → P.Pairs S (f a) (g b)) :
    P.Pairs S (x >>= f) (y >>= g) := by
  intro s s' hs
  have hfirst := hx s s' hs
  rcases hrun : x P.env s with ⟨r, t⟩
  rcases hrun' : y P.env' s' with ⟨r', t'⟩
  rw [hrun, hrun'] at hfirst
  cases hfirst with
  | ok hab ht =>
      rw [bind_apply_of_ok hrun, bind_apply_of_ok hrun']
      exact ht.matching (hf _ _ hab t t' ht.toStates)
  | error he ht =>
      rw [bind_apply_of_error hrun, bind_apply_of_error hrun']
      exact .error he ht
  | free hfree =>
      rw [bind_apply_of_error hrun]
      exact .free hfree

theorem map {x : CheckM α} {y : CheckM β} (hx : P.Pairs R x y) {f : α → γ} {g : β → δ}
    (h : ∀ a b, R a b → S (f a) (g b)) : P.Pairs S (f <$> x) (g <$> y) := by
  rw [← bind_pure_comp, ← bind_pure_comp]
  exact hx.bind fun a b hab => .pure (h a b hab)

theorem imp {R' : α → β → Prop} {x : CheckM α} {y : CheckM β} (hx : P.Pairs R x y)
    (h : ∀ a b, R a b → R' a b) : P.Pairs R' x y :=
  fun s s' hs => (hx s s' hs).imp h

theorem knowing {Q : α → Prop} {x : CheckM α} {y : CheckM β} (hx : P.Pairs R x y)
    (h : ∀ s a t, x P.env s = (.ok a, t) → Q a) : P.Pairs (fun a b => R a b ∧ Q a) x y := by
  intro s s' hs
  have hfirst := hx s s' hs
  rcases hrun : x P.env s with ⟨r, t⟩
  rw [hrun] at hfirst
  revert hfirst
  generalize y P.env' s' = r'
  intro hfirst
  cases hfirst with
  | ok hab ht => exact .ok ⟨hab, h s _ t hrun⟩ ht
  | error he ht => exact .error he ht
  | free hfree => exact .free hfree

theorem require {ok ok' : Bool} {cause cause' : Cause} (line : UInt32) (hok : ok = ok')
    (h : P.strict → cause = cause') :
    P.Pairs (fun _ _ => True) (CheckM.require ok cause line) (CheckM.require ok' cause' line) := by
  subst hok
  unfold CheckM.require
  cases ok with
  | true => exact .pure trivial
  | false => exact .fail line h

theorem orFail {strip : Cut → α → α} {o o' : Option α} {cause cause' : Cause} (line : UInt32)
    (ho : P.AlikeOption strip o o') (h : P.strict → cause = cause') :
    P.Pairs (P.Alike strip) (CheckM.orFail o cause line) (CheckM.orFail o' cause' line) := by
  rcases ho.cases with ⟨rfl, rfl⟩ | ⟨a, a', rfl, rfl, ha⟩
  · exact .fail line h
  · exact .pure ha

theorem mapCause {x : CheckM α} {y : CheckM β} (hx : P.Pairs R x y) (f : Cause → Cause) :
    P.Pairs R (CheckM.mapCause f x) (CheckM.mapCause f y) := by
  intro s s' hs
  have hfirst := hx s s' hs
  rcases hrun : x P.env s with ⟨r, t⟩
  rcases hrun' : y P.env' s' with ⟨r', t'⟩
  rw [hrun, hrun'] at hfirst
  unfold CheckM.mapCause
  rw [hrun, hrun']
  cases hfirst with
  | ok hab ht => exact .ok hab ht
  | error he ht =>
      apply Likeness.Match.error _ ht
      intro hstrict
      rw [he hstrict]
  | free hfree => exact .free hfree

theorem collect {xs : List (CheckM α)} {ys : List (CheckM β)}
    (h : List.Forall₂ (P.Pairs R) xs ys) :
    P.Pairs (List.Forall₂ R) (CheckM.collect xs) (CheckM.collect ys) := by
  induction h with
  | nil => exact .pure .nil
  | cons hx _ ih =>
      apply hx.bind
      intro a b hab
      apply ih.bind
      intro as bs habs
      exact .pure (.cons hab habs)

theorem optional {x : Option (CheckM α)} {y : Option (CheckM β)}
    (h : Option.Rel (P.Pairs R) x y) :
    P.Pairs (Option.Rel R) (CheckM.optional x) (CheckM.optional y) := by
  cases h with
  | none => exact .pure .none
  | some hx => exact hx.bind fun _ _ hab => .pure (.some hab)

theorem around {enter leave : Env → State → State} {x : CheckM α} {y : CheckM β}
    (henter : ∀ s s', P.States s s' → P.States (enter P.env s) (enter P.env' s'))
    (hleave : ∀ s s' t t', P.States s s' → P.Ends (enter P.env s) (enter P.env' s') t t' →
      P.Ends s s' (leave P.env t) (leave P.env' t'))
    (hx : P.Pairs R x y) :
    P.Pairs R (CheckM.around enter leave x) (CheckM.around enter leave y) := by
  intro s s' hs
  have hfirst := hx _ _ (henter s s' hs)
  rcases hrun : x P.env (enter P.env s) with ⟨r, t⟩
  rcases hrun' : y P.env' (enter P.env' s') with ⟨r', t'⟩
  rw [hrun, hrun'] at hfirst
  unfold CheckM.around
  rw [hrun, hrun']
  cases hfirst with
  | ok hab ht => exact .ok hab (hleave s s' t t' hs ht)
  | error he ht => exact .error he (hleave s s' t t' hs ht)
  | free hfree => exact .free hfree

theorem inScope {x : CheckM α} {y : CheckM β} (hx : P.Pairs R x y) :
    P.Pairs R (CheckM.inScope x) (CheckM.inScope y) := by
  apply hx.around
  · intro s s' hs
    exact ⟨P.enter hs.session, hs.classes, hs.exprs, hs.stmts, hs.report⟩
  · intro s s' t t' _ ht
    exact ⟨⟨P.leave ht.session, ht.classes, ht.exprs, ht.stmts, ht.report⟩, ht.level, ht.level'⟩

theorem inStmt (c : StmtContext) {x : CheckM α} {y : CheckM β} (hx : P.Pairs R x y) :
    P.Pairs R (CheckM.inStmt c x) (CheckM.inStmt c y) := by
  apply hx.around
  · intro s s' hs
    exact ⟨hs.session, hs.classes, hs.exprs, congrArg (·.push c) hs.stmts, hs.report⟩
  · intro s s' t t' _ ht
    exact ⟨⟨ht.session, ht.classes, ht.exprs, congrArg ContextStack.pop ht.stmts, ht.report⟩,
      ht.level, ht.level'⟩

theorem inExpr (c : ExprContext) {x : CheckM α} {y : CheckM β} (hx : P.Pairs R x y) :
    P.Pairs R (CheckM.inExpr c x) (CheckM.inExpr c y) := by
  apply hx.around
  · intro s s' hs
    exact ⟨hs.session, hs.classes, rfl, hs.stmts, hs.report⟩
  · intro s s' t t' hs ht
    have hlevel : t.exprs.pop = s.exprs := congrArg ContextStack.pop ht.level
    have hlevel' : t'.exprs.pop = s'.exprs := congrArg ContextStack.pop ht.level'
    refine ⟨⟨ht.session, ht.classes, ?_, ht.stmts, ht.report⟩, hlevel, hlevel'⟩
    show t.exprs.pop.top? = t'.exprs.pop.top?
    rw [hlevel, hlevel']
    exact hs.exprs

theorem inClass {c c' : ClassTy} (hc : P.Alike ClassTy.strip c c') {x : CheckM α} {y : CheckM β}
    (hx : P.Pairs R x y) : P.Pairs R (CheckM.inClass c x) (CheckM.inClass c' y) := by
  intro s s' hs
  have hfirst := hx { s with classes := s.classes.push c } { s' with classes := s'.classes.push c' }
    ⟨hs.session, congrArg₂ List.cons hc hs.classes, hs.exprs, hs.stmts, hs.report⟩
  have hleave : ∀ t t', P.Ends { s with classes := s.classes.push c }
      { s' with classes := s'.classes.push c' } t t' →
      P.Ends s s' { t with classes := t.classes.pop } { t' with classes := t'.classes.pop } := by
    intro t t' ht
    refine ⟨⟨ht.session, ?_, ht.exprs, ht.stmts, ht.report⟩, ht.level, ht.level'⟩
    show t.classes.tail.map _ = t'.classes.tail.map _
    rw [List.map_tail, List.map_tail, ht.classes]
  show P.Match R s s' ((x P.env _).1, _) ((y P.env' _).1, _)
  revert hfirst
  generalize x P.env { s with classes := s.classes.push c } = r
  generalize y P.env' { s' with classes := s'.classes.push c' } = r'
  intro hfirst
  cases hfirst with
  | ok hab ht => exact .ok hab (hleave _ _ ht)
  | error he ht => exact .error he (hleave _ _ ht)
  | free hfree => exact .free hfree

theorem declare (name : String) {ty ty' : Ty} (h : P.Alike Ty.strip ty ty') :
    P.Pairs (fun _ _ => True) (CheckM.declare name ty) (CheckM.declare name ty') :=
  fun _ _ hs => .ok trivial
    ⟨⟨P.bind name hs.session h, hs.classes, hs.exprs, hs.stmts, hs.report⟩, rfl, rfl⟩

theorem declareAll {bs bs' : List (String × Ty)}
    (h : List.Forall₂ (fun b b' => b.1 = b'.1 ∧ P.Alike Ty.strip b.2 b'.2) bs bs') :
    P.Pairs (fun _ _ => True) (CheckM.declareAll bs) (CheckM.declareAll bs') := by
  induction h with
  | nil => exact .pure trivial
  | @cons b b' _ _ hb _ ih =>
      rcases b with ⟨name, ty⟩
      rcases b' with ⟨name', ty'⟩
      rcases hb with ⟨rfl, hty⟩
      exact (Pairs.declare name hty).bind fun _ _ _ => ih

end Pairs

/-!
# Lists with parts left out
-/

inductive Thinned (R : α → β → Prop) (skip : α → Prop) : List α → List β → Prop where
  | nil : Thinned R skip [] []
  | keep {a b as bs} : R a b → Thinned R skip as bs → Thinned R skip (a :: as) (b :: bs)
  | skip {a as bs} : skip a → Thinned R skip as bs → Thinned R skip (a :: as) bs

inductive Aligned (P : Pairing) (R : α → β → Prop) (skip : α → Prop) :
    List (CheckM α) → List (CheckM β) → Prop where
  | nil : Aligned P R skip [] []
  | keep {x y xs ys} : P.Pairs R x y → Aligned P R skip xs ys →
      Aligned P R skip (x :: xs) (y :: ys)
  | skip {a xs ys} : skip a → Aligned P R skip xs ys →
      Aligned P R skip ((Pure.pure a : CheckM α) :: xs) ys

theorem Aligned.collect {R : α → β → Prop} {skip : α → Prop} {xs : List (CheckM α)}
    {ys : List (CheckM β)} (h : P.Aligned R skip xs ys) :
    P.Pairs (Thinned R skip) (CheckM.collect xs) (CheckM.collect ys) := by
  induction h with
  | nil => exact .pure .nil
  | keep hx _ ih =>
      apply hx.bind
      intro a b hab
      apply ih.bind
      intro as bs habs
      exact .pure (.keep hab habs)
  | @skip a xs ys ha _ ih =>
      rw [CheckM.collect, pure_bind, ← bind_pure (CheckM.collect ys)]
      apply ih.bind
      intro as bs habs
      exact .pure (.skip ha habs)

end Pairing
end StaticTyping
