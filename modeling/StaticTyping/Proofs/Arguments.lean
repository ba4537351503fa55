import Mathlib.Data.List.Nodup
import Mathlib.Data.Set.List
import StaticTyping.Proofs.Placement.Tree
import StaticTyping.Proofs.WellTyped

/-!
# Named arguments

A call with named arguments is accepted exactly if each name is that of a parameter, no name is
given twice, each value is accepted by the parameter it goes to, and the parameters that are left
out can be.  The values then stand in the order of the parameters.

Where no parameter is variadic and their names differ, arguments named in the order of the
parameters are arranged just as the same arguments by position.
-/

namespace StaticTyping

namespace Source.Arg

/-- Arguments by position. -/
def positional (values : List Expr) : List Arg :=
  values.map fun value => ⟨none, value⟩

/-- Arguments by name. -/
def named (args : List (Ident × Expr)) : List Arg :=
  args.map fun arg => ⟨some arg.1, arg.2⟩

end Source.Arg

/-- The parameter at a place takes the arguments of a name: it is the first one of that name. -/
def Param.Takes (params : List Param) (place : Nat) (name : String) : Prop :=
  params.findIdx? (·.name == name) = some place

theorem Param.Takes.name_eq {params : List Param} {i : Nat} {name other : String}
    (h : Takes params i name) (h' : Takes params i other) : name = other := by
  rcases List.findIdx?_eq_some_iff_getElem.mp h with ⟨_, hname, _⟩
  rcases List.findIdx?_eq_some_iff_getElem.mp h' with ⟨_, hother, _⟩
  exact (beq_iff_eq.mp hname).symm.trans (beq_iff_eq.mp hother)

def Param.leftOut? (p : Param) (span : Span) : Option Typed.Expr :=
  p.default.or (if p.variadic then some ⟨.list [], p.bodyTy, span⟩ else none)

theorem Param.isSome_leftOut? {p : Param} {span : Span} :
    (p.leftOut? span).isSome ↔ p.default.isSome ∨ p.variadic = true := by
  unfold Param.leftOut?
  cases p.default <;> cases p.variadic <;> simp

/-- Named arguments confirmed in their order, each in the state that the one before it leaves and
against the first parameter of its name. -/
inductive Checker.Confirmed (env : Env) (params : List Param) :
    State → List (Ident × Source.Expr) → List Typed.Expr → State → Prop where
  | nil (s : State) : Confirmed env params s [] [] s
  | cons {s s' t : State} {name : Ident} {e : Source.Expr} {p : Param} {value : Typed.Expr}
      {args : List (Ident × Source.Expr)} {values : List Typed.Expr}
      (hparam : params.find? (·.name == name.name) = some p)
      (hvalue : CheckM.confirm e (expr e) p.bodyTy env s = (.ok value, s'))
      (hrest : Confirmed env params s' args values t) :
      Confirmed env params s ((name, e) :: args) (value :: values) t

/-- Values for the parameters of a signature, in their order: that of the argument which goes to the
parameter, or the one that it has when it is left out. -/
structure Signature.Filled (sig : Signature) (span : Span) (args : List (Ident × Source.Expr))
    (given values : List Typed.Expr) : Prop where
  length_eq : values.length = sig.params.length
  given_of_takes : ∀ (i j : Nat) (arg : Ident × Source.Expr) (value : Typed.Expr),
    args[j]? = some arg → Param.Takes sig.params i arg.1.name → values[i]? = some value →
    given[j]? = some value
  leftOut_of_not_takes : ∀ (i : Nat) (p : Param) (value : Typed.Expr), sig.params[i]? = some p →
    (∀ arg ∈ args, ¬Param.Takes sig.params i arg.1.name) → values[i]? = some value →
    p.leftOut? span = some value

namespace Checker

theorem arguments_eq_map (args : List Source.Arg) :
    arguments args = args.map fun arg => ⟨arg.name, .ofExpr arg.value (expr arg.value)⟩ := by
  induction args with
  | nil => rfl
  | cons arg args ih =>
      cases arg
      rw [List.map_cons, ← ih]
      rfl

def namedOperands (args : List (Ident × Source.Expr)) : List (Ident × Operand) :=
  args.map fun arg => (arg.1, .ofExpr arg.2 (expr arg.2))

theorem arguments_named (args : List (Ident × Source.Expr)) :
    arguments (Source.Arg.named args) =
      (namedOperands args).map fun arg => ⟨some arg.1, arg.2⟩ := by
  rw [arguments_eq_map, Source.Arg.named, namedOperands, List.map_map, List.map_map]
  rfl

theorem arguments_positional (values : List Source.Expr) :
    arguments (Source.Arg.positional values) =
      values.map fun e => ⟨none, .ofExpr e (expr e)⟩ := by
  rw [arguments_eq_map, Source.Arg.positional, List.map_map]
  rfl

theorem Confirmed.length_eq {env : Env} {params : List Param} {s t : State}
    {args : List (Ident × Source.Expr)} {values : List Typed.Expr}
    (h : Confirmed env params s args values t) : values.length = args.length := by
  induction h with
  | nil s => rfl
  | cons _ _ _ ih => exact congrArg (· + 1) ih

theorem Confirmed.mem_params {env : Env} {params : List Param} {s t : State}
    {args : List (Ident × Source.Expr)} {values : List Typed.Expr}
    (h : Confirmed env params s args values t) :
    ∀ arg ∈ args, ∃ p ∈ params, p.name = arg.1.name := by
  induction h with
  | nil s => exact fun _ h => absurd h List.not_mem_nil
  | cons hparam _ _ ih =>
      have hname := List.find?_some hparam
      exact List.forall_mem_cons.mpr
        ⟨⟨_, List.mem_of_find?_eq_some hparam, beq_iff_eq.mp hname⟩, ih⟩

end Checker

/-!
# Seats
-/

namespace Seat

def giveAll (given : List (String × Typed.Expr)) (seats : List Seat) : List Seat :=
  given.foldl (fun seats g => give g.1 g.2 seats) seats

@[simp] theorem map_param_ofSignature (sig : Signature) :
    (ofSignature sig).map Seat.param = sig.params := by
  rw [ofSignature, List.map_map]
  exact List.map_id _

@[simp] theorem map_param_giveAll (given : List (String × Typed.Expr)) (seats : List Seat) :
    (giveAll given seats).map Seat.param = seats.map Seat.param := by
  induction given generalizing seats with
  | nil => rfl
  | cons g given ih => exact (ih _).trans (map_param_give g.1 g.2 seats)

theorem map_param_find? (name : String) (seats : List Seat) :
    (find? name seats).map Seat.param = (seats.map Seat.param).find? (·.name == name) := by
  rw [List.find?_map]
  rfl

theorem getElem?_give_of_takes {name : String} (value : Typed.Expr) {seats : List Seat} {i : Nat}
    (h : Param.Takes (seats.map Seat.param) i name) :
    (give name value seats)[i]? = seats[i]?.map fun seat => ⟨seat.param, some value⟩ := by
  unfold Param.Takes at h
  induction seats generalizing i with
  | nil => rfl
  | cons seat seats ih =>
      rw [List.map_cons, List.findIdx?_cons] at h
      unfold give
      by_cases hname : seat.param.name = name
      · rw [if_pos (beq_iff_eq.mpr hname)] at h
        cases h
        rw [if_pos hname]
        rfl
      · rw [if_neg fun heq => hname (beq_iff_eq.mp heq)] at h
        rcases Option.map_eq_some_iff.mp h with ⟨j, hj, rfl⟩
        rw [if_neg hname]
        exact ih hj

theorem getElem?_give_of_not_takes {name : String} (value : Typed.Expr) {seats : List Seat}
    {i : Nat} (h : ¬Param.Takes (seats.map Seat.param) i name) :
    (give name value seats)[i]? = seats[i]? := by
  unfold Param.Takes at h
  induction seats generalizing i with
  | nil => rfl
  | cons seat seats ih =>
      rw [List.map_cons, List.findIdx?_cons] at h
      unfold give
      by_cases hname : seat.param.name = name
      · rw [if_pos (beq_iff_eq.mpr hname)] at h
        rw [if_pos hname]
        cases i with
        | zero => exact absurd rfl h
        | succ i => rfl
      · rw [if_neg fun heq => hname (beq_iff_eq.mp heq)] at h
        rw [if_neg hname]
        cases i with
        | zero => rfl
        | succ i => exact ih fun hi => h (by rw [hi]; rfl)

theorem find?_give_of_ne {name other : String} (h : other ≠ name) (value : Typed.Expr)
    (seats : List Seat) : find? other (give name value seats) = find? other seats := by
  unfold find?
  induction seats with
  | nil => rfl
  | cons seat seats ih =>
      unfold give
      by_cases hname : seat.param.name = name
      · simp [hname, h.symm]
      · rw [if_neg hname, List.find?_cons, List.find?_cons, ih]

theorem value_of_find?_give {name : String} {value : Typed.Expr} {seats : List Seat} {seat : Seat}
    (h : find? name (give name value seats) = some seat) : seat.value = some value := by
  unfold find? at h
  induction seats with
  | nil => cases h
  | cons head seats ih =>
      unfold give at h
      by_cases hname : head.param.name = name
      · rw [if_pos hname, List.find?_cons, beq_iff_eq.mpr hname] at h
        cases h
        rfl
      · rw [if_neg hname, List.find?_cons, beq_eq_false_iff_ne.mpr hname] at h
        exact ih h

theorem getElem?_giveAll_of_not_takes {i : Nat} {given : List (String × Typed.Expr)}
    {seats : List Seat} (h : ∀ g ∈ given, ¬Param.Takes (seats.map Seat.param) i g.1) :
    (giveAll given seats)[i]? = seats[i]? := by
  induction given generalizing seats with
  | nil => rfl
  | cons g given ih =>
      rcases List.forall_mem_cons.mp h with ⟨hg, hgiven⟩
      rw [← map_param_give g.1 g.2] at hgiven
      exact (ih hgiven).trans (getElem?_give_of_not_takes g.2 hg)

theorem getElem?_giveAll_of_takes {i : Nat} {given : List (String × Typed.Expr)}
    {seats : List Seat} (hnames : (given.map Prod.fst).Nodup) {g : String × Typed.Expr}
    (hmem : g ∈ given) (htakes : Param.Takes (seats.map Seat.param) i g.1) :
    (giveAll given seats)[i]? = seats[i]?.map fun seat => ⟨seat.param, some g.2⟩ := by
  induction given generalizing seats with
  | nil => exact absurd hmem List.not_mem_nil
  | cons head given ih =>
      rw [List.map_cons, List.nodup_cons] at hnames
      show (giveAll given (give head.1 head.2 seats))[i]? = _
      rcases List.mem_cons.mp hmem with rfl | hmem
      · -- No later name is taken at this place, since the parameter there has this one.
        have hlater : ∀ g' ∈ given,
            ¬Param.Takes ((give g.1 g.2 seats).map Seat.param) i g'.1 := by
          intro g' hg' htakes'
          rw [map_param_give] at htakes'
          exact hnames.1 (htakes'.name_eq htakes ▸ List.mem_map_of_mem hg')
        rw [getElem?_giveAll_of_not_takes hlater, getElem?_give_of_takes g.2 htakes]
      · have hhead : ¬Param.Takes (seats.map Seat.param) i head.1 := fun htakes' =>
          hnames.1 (htakes.name_eq htakes' ▸ List.mem_map_of_mem hmem)
        rw [ih hnames.2 hmem (by rw [map_param_give]; exact htakes),
          getElem?_give_of_not_takes head.2 hhead]

theorem find?_append_of_fresh {name : String} {done : List Seat} {seat : Seat} {seats : List Seat}
    (hdone : ∀ other ∈ done, other.param.name ≠ name) (hname : seat.param.name = name) :
    find? name (done ++ seat :: seats) = some seat := by
  unfold find?
  rw [List.find?_append, List.find?_eq_none.mpr fun other h => ?_, List.find?_cons,
    beq_iff_eq.mpr hname]
  · rfl
  · exact fun heq => hdone other h (beq_iff_eq.mp heq)

theorem give_append_of_fresh {name : String} {done : List Seat} {seat : Seat} {seats : List Seat}
    (hdone : ∀ other ∈ done, other.param.name ≠ name) (hname : seat.param.name = name)
    (value : Typed.Expr) :
    give name value (done ++ seat :: seats) = done ++ ⟨seat.param, some value⟩ :: seats := by
  induction done with
  | nil =>
      show give name value (seat :: seats) = _
      rw [give, if_pos hname]
      rfl
  | cons other done ih =>
      rcases List.forall_mem_cons.mp hdone with ⟨hother, hdone⟩
      show give name value (other :: (done ++ seat :: seats)) = _
      rw [give, if_neg hother, ih hdone]
      rfl

def final? (span : Span) (seat : Seat) : Option Typed.Expr :=
  seat.value.or (seat.param.leftOut? span)

end Seat

namespace CheckM

open Seat (find? give giveAll ofSignature final?)

variable {env : Env} {s t : State}

theorem require_apply_eq_ok {ok : Bool} {cause : Cause} {line : UInt32} {u : Unit} :
    require ok cause line env s = (.ok u, t) ↔ ok = true ∧ t = s := by
  cases ok with
  | true => exact ⟨fun h => ⟨rfl, (congrArg Prod.snd h).symm⟩, fun h => by rw [h.2]; rfl⟩
  | false => exact ⟨fun h => (by cases h), fun h => (by cases h.1)⟩

theorem orFail_apply_eq_ok {α : Type} {o : Option α} {cause : Cause} {line : UInt32} {a : α} :
    orFail o cause line env s = (.ok a, t) ↔ o = some a ∧ t = s := by
  cases o with
  | none => exact ⟨fun h => (by cases h), fun h => (by cases h.1)⟩
  | some b =>
      constructor
      · intro h
        cases h
        exact ⟨rfl, rfl⟩
      · rintro ⟨hb, rfl⟩
        cases hb
        rfl

theorem collect_orFail_apply_eq_ok {α β : Type} {f : α → Option β} {cause : α → Cause}
    {line : UInt32} {as : List α} {bs : List β} :
    collect (as.map fun a => orFail (f a) (cause a) line) env s = (.ok bs, t) ↔
      as.map f = bs.map some ∧ t = s := by
  induction as generalizing bs with
  | nil =>
      constructor
      · intro h
        cases h
        exact ⟨rfl, rfl⟩
      · rintro ⟨hbs, rfl⟩
        cases List.map_eq_nil_iff.mp hbs.symm
        rfl
  | cons a as ih =>
      rw [List.map_cons, collect]
      simp only [bind_apply_eq_ok, orFail_apply_eq_ok, pure_apply, List.map_cons]
      constructor
      · rintro ⟨b, _, ⟨hb, rfl⟩, bs', s', hrest, hpure⟩
        cases hpure
        obtain ⟨hbs', rfl⟩ := ih.mp hrest
        exact ⟨by rw [List.map_cons, hb, hbs'], rfl⟩
      · rintro ⟨hbs, rfl⟩
        obtain ⟨b, bs', rfl, hb, hbs'⟩ := List.map_eq_cons_iff.mp hbs.symm
        exact ⟨b, t, ⟨hb.symm, rfl⟩, bs', t, ih.mpr ⟨hbs'.symm, rfl⟩, rfl⟩

theorem seated_eq_orFail (callee : String) (span : Span) (seat : Seat) :
    seated callee span seat =
      orFail (final? span seat) (.argumentMissing callee seat.param.name) span.line := by
  unfold seated omitted final? Param.leftOut?
  cases seat.value with
  | some value => rfl
  | none =>
      cases seat.param.default with
      | some value => rfl
      | none => cases seat.param.variadic <;> rfl

theorem giveNamed_eq_ok {callee : String} {args : List (Ident × Source.Expr)}
    {seats seats' : List Seat} {s : State} :
    giveNamed callee (Checker.namedOperands args) seats env s = (.ok seats', t) ↔
      ∃ values, Checker.Confirmed env (seats.map Seat.param) s args values t ∧
        (args.map (·.1.name)).Nodup ∧
        (∀ arg ∈ args, ∀ seat, find? arg.1.name seats = some seat → seat.value = none) ∧
        seats' = giveAll ((args.map (·.1.name)).zip values) seats := by
  induction args generalizing seats s with
  | nil =>
      constructor
      · intro h
        cases h
        exact ⟨[], .nil _, List.nodup_nil, fun _ h => absurd h List.not_mem_nil, rfl⟩
      · rintro ⟨values, hconfirmed, -, -, rfl⟩
        cases hconfirmed
        rfl
  | cons arg args ih =>
      obtain ⟨name, e⟩ := arg
      show (orFail _ _ _ >>= _) env s = _ ↔ _
      simp only [bind_apply_eq_ok, orFail_apply_eq_ok, require_apply_eq_ok]
      constructor
      · rintro ⟨seat, _, ⟨hseat, rfl⟩, _, _, ⟨hfree, rfl⟩, value, s', hvalue, hrest⟩
        obtain ⟨values, hconfirmed, hnames, hothers, rfl⟩ := ih.mp hrest
        rw [Seat.map_param_give] at hconfirmed
        have hparam : (seats.map Seat.param).find? (·.name == name.name) = some seat.param := by
          rw [← Seat.map_param_find?, hseat]
          rfl
        have hdiffers : ∀ other ∈ args, other.1.name ≠ name.name := by
          intro other hother hname
          -- The seat of this name is taken now, so that it is not free for another.
          obtain ⟨taken, htaken, -⟩ := Option.map_eq_some_iff.mp <|
            (Seat.map_param_find? name.name (give name.name value seats)).trans
              (by rw [Seat.map_param_give, hparam])
          have hnone := hothers other hother taken (hname ▸ htaken)
          rw [Seat.value_of_find?_give htaken] at hnone
          cases hnone
        refine ⟨value :: values, .cons hparam hvalue hconfirmed, ?_, ?_, rfl⟩
        · rw [List.map_cons, List.nodup_cons]
          refine ⟨fun hmem => ?_, hnames⟩
          obtain ⟨other, hother, hname⟩ := List.mem_map.mp hmem
          exact hdiffers other hother hname
        · refine List.forall_mem_cons.mpr ⟨fun found hfound => ?_, ?_⟩
          · cases hseat.symm.trans hfound
            exact Option.isNone_iff_eq_none.mp hfree
          · intro other hother found hfound
            rw [← Seat.find?_give_of_ne (hdiffers other hother) value] at hfound
            exact hothers other hother found hfound
      · rintro ⟨values, hconfirmed, hnames, hfree, rfl⟩
        rcases hconfirmed with _ | ⟨hparam, hvalue, hrest⟩
        rw [List.map_cons, List.nodup_cons] at hnames
        rcases List.forall_mem_cons.mp hfree with ⟨hhead, htail⟩
        obtain ⟨seat, hseat, rfl⟩ := Option.map_eq_some_iff.mp <|
          (Seat.map_param_find? name.name seats).trans hparam
        refine ⟨seat, s, ⟨hseat, rfl⟩, (), s, ⟨?_, rfl⟩, _, _, hvalue, ih.mpr ?_⟩
        · exact Option.isNone_iff_eq_none.mpr (hhead seat hseat)
        · rw [Seat.map_param_give]
          refine ⟨_, hrest, hnames.2, fun other hother found hfound => ?_, rfl⟩
          have hdiffers : other.1.name ≠ name.name := fun hname =>
            hnames.1 (List.mem_map.mpr ⟨other, hother, hname⟩)
          rw [Seat.find?_give_of_ne hdiffers] at hfound
          exact htail other hother found hfound

theorem byName_eq_ok {callee : String} {sig : Signature} {args : List (Ident × Source.Expr)}
    {span : Span} {values : List Typed.Expr} :
    byName callee sig (Checker.namedOperands args) span env s = (.ok values, t) ↔
      ∃ given, Checker.Confirmed env sig.params s args given t ∧
        (args.map (·.1.name)).Nodup ∧
        (giveAll ((args.map (·.1.name)).zip given) (ofSignature sig)).map (final? span) =
          values.map some := by
  have hfree : ∀ arg ∈ args, ∀ seat,
      find? arg.1.name (ofSignature sig) = some seat → seat.value = none := by
    intro arg _ seat hseat
    obtain ⟨p, -, rfl⟩ := List.mem_map.mp (List.mem_of_find?_eq_some hseat)
    rfl
  have hseated : seated callee span = fun seat =>
      orFail (final? span seat) (.argumentMissing callee seat.param.name) span.line :=
    funext (seated_eq_orFail callee span)
  unfold byName
  simp only [bind_apply_eq_ok, giveNamed_eq_ok, hseated, collect_orFail_apply_eq_ok,
    Seat.map_param_ofSignature]
  constructor
  · rintro ⟨_, _, ⟨given, hgiven, hnames, -, rfl⟩, hvalues, rfl⟩
    exact ⟨given, hgiven, hnames, hvalues⟩
  · rintro ⟨given, hgiven, hnames, hvalues⟩
    exact ⟨_, t, ⟨given, hgiven, hnames, hfree, rfl⟩, hvalues, rfl⟩

/-!
# Calls with named arguments
-/

section Filled

variable {sig : Signature} {args : List (Ident × Source.Expr)} {given : List Typed.Expr} {i : Nat}

theorem getElem?_seats_of_takes (hlength : given.length = args.length)
    (hnames : (args.map (·.1.name)).Nodup) {j : Nat} {arg : Ident × Source.Expr}
    {value : Typed.Expr} (harg : args[j]? = some arg) (hvalue : given[j]? = some value)
    (htakes : Param.Takes sig.params i arg.1.name) :
    (giveAll ((args.map (·.1.name)).zip given) (ofSignature sig))[i]? =
      sig.params[i]?.map fun p => ⟨p, some value⟩ := by
  have hmem : (arg.1.name, value) ∈ (args.map (·.1.name)).zip given := by
    refine List.mem_iff_getElem?.mpr ⟨j, List.getElem?_zip_eq_some.mpr ⟨?_, hvalue⟩⟩
    rw [List.getElem?_map, harg]
    rfl
  have hfst : ((args.map (·.1.name)).zip given).map Prod.fst = args.map (·.1.name) :=
    List.map_fst_zip (by rw [List.length_map, hlength])
  rw [Seat.getElem?_giveAll_of_takes (hfst.symm ▸ hnames) hmem
    (by rw [Seat.map_param_ofSignature]; exact htakes), ofSignature, List.getElem?_map,
    Option.map_map]
  rfl

theorem getElem?_seats_of_not_takes
    (h : ∀ arg ∈ args, ¬Param.Takes sig.params i arg.1.name) :
    (giveAll ((args.map (·.1.name)).zip given) (ofSignature sig))[i]? =
      sig.params[i]?.map fun p => ⟨p, none⟩ := by
  rw [Seat.getElem?_giveAll_of_not_takes fun g hg => ?_, ofSignature, List.getElem?_map]
  obtain ⟨arg, harg, hname⟩ := List.mem_map.mp (List.of_mem_zip hg).1
  rw [Seat.map_param_ofSignature, ← hname]
  exact h arg harg

theorem filled_of_map_final? {span : Span} {values : List Typed.Expr}
    (hlength : given.length = args.length) (hnames : (args.map (·.1.name)).Nodup)
    (h : (giveAll ((args.map (·.1.name)).zip given) (ofSignature sig)).map (final? span) =
      values.map some) : sig.Filled span args given values := by
  have hplace : ∀ (i : Nat) (value : Typed.Expr), values[i]? = some value →
      (giveAll ((args.map (·.1.name)).zip given) (ofSignature sig))[i]?.map (final? span) =
        some (some value) := by
    intro i value hvalue
    rw [← List.getElem?_map, h, List.getElem?_map, hvalue]
    rfl
  refine ⟨?_, fun i j arg value harg htakes hvalue => ?_, fun i p value hp hfree hvalue => ?_⟩
  · have hcount := congrArg List.length h
    have hparams := congrArg List.length (Seat.map_param_giveAll
      ((args.map (·.1.name)).zip given) (ofSignature sig))
    rw [Seat.map_param_ofSignature] at hparams
    simp only [List.length_map] at hcount hparams
    rw [← hcount, hparams]
  · have hj : j < given.length := hlength ▸ (List.getElem?_eq_some_iff.mp harg).1
    have hseat := hplace i value hvalue
    have hgiven := List.getElem?_eq_getElem hj
    rw [getElem?_seats_of_takes hlength hnames harg hgiven htakes, Option.map_map] at hseat
    obtain ⟨p, -, hfinal⟩ := Option.map_eq_some_iff.mp hseat
    rw [hgiven]
    exact hfinal
  · have hseat := hplace i value hvalue
    rw [getElem?_seats_of_not_takes hfree, hp] at hseat
    exact Option.some.inj hseat

theorem exists_map_final?_eq {span : Span} (hlength : given.length = args.length)
    (hnames : (args.map (·.1.name)).Nodup)
    (hrest : ∀ (i : Nat) (p : Param), sig.params[i]? = some p →
      (∀ arg ∈ args, ¬Param.Takes sig.params i arg.1.name) →
      p.default.isSome ∨ p.variadic = true) :
    ∃ values : List Typed.Expr,
      (giveAll ((args.map (·.1.name)).zip given) (ofSignature sig)).map (final? span) =
        values.map some := by
  have hfinal : ∀ o ∈ (giveAll ((args.map (·.1.name)).zip given) (ofSignature sig)).map
      (final? span), o ∈ Set.range some := by
    intro o ho
    obtain ⟨seat, hseat, rfl⟩ := List.mem_map.mp ho
    obtain ⟨i, hi⟩ := List.mem_iff_getElem?.mp hseat
    -- a seat has the value of the argument that goes to it, or else the one it has when left out
    by_cases htakes : ∃ arg ∈ args, Param.Takes sig.params i arg.1.name
    · obtain ⟨arg, harg, htakes⟩ := htakes
      obtain ⟨j, hj⟩ := List.mem_iff_getElem?.mp harg
      have hlt : j < given.length := hlength ▸ (List.getElem?_eq_some_iff.mp hj).1
      have hvalue := List.getElem?_eq_getElem hlt
      rw [getElem?_seats_of_takes hlength hnames hj hvalue htakes] at hi
      obtain ⟨p, -, rfl⟩ := Option.map_eq_some_iff.mp hi
      exact ⟨_, rfl⟩
    · have hfree : ∀ arg ∈ args, ¬Param.Takes sig.params i arg.1.name :=
        fun arg harg h => htakes ⟨arg, harg, h⟩
      rw [getElem?_seats_of_not_takes hfree] at hi
      obtain ⟨p, hp, rfl⟩ := Option.map_eq_some_iff.mp hi
      have hleft : (p.leftOut? span).isSome := Param.isSome_leftOut?.mpr (hrest i p hp hfree)
      exact ⟨_, Option.some_get hleft⟩
  obtain ⟨values, hvalues⟩ := (Set.range_list_map some).ge hfinal
  exact ⟨values, hvalues.symm⟩

end Filled

theorem arrange_named {callee : String} {sig : Signature} {args : List (Ident × Source.Expr)}
    {span : Span} :
    arrange callee sig (Checker.arguments (Source.Arg.named args)) span =
      byName callee sig (Checker.namedOperands args) span := by
  cases args with
  | nil => rfl
  | cons arg args =>
      have hsome : (Checker.arguments (Source.Arg.named (arg :: args))).all (·.name.isSome) := by
        rw [Checker.arguments_named]
        simp
      have honly : namedOnly (Checker.arguments (Source.Arg.named (arg :: args))) =
          Checker.namedOperands (arg :: args) := by
        rw [Checker.arguments_named, namedOnly, List.filterMap_map]
        exact List.filterMap_some
      unfold arrange
      rw [if_pos hsome, honly]
      rfl

/-- A call with named arguments is accepted exactly if each name is that of a parameter, no name is
given twice, the values are confirmed in their order, each against the first parameter of its name,
and each parameter that none goes to has a default or is variadic.  The values are then in the order
of the parameters. -/
theorem arrange_named_accepted_iff (callee : String) (sig : Signature)
    (args : List (Ident × Source.Expr)) (span : Span) (env : Env) (s : State) :
    ((∃ values t,
        arrange callee sig (Checker.arguments (Source.Arg.named args)) span env s =
          (.ok values, t)) ↔
      (∀ arg ∈ args, ∃ p ∈ sig.params, p.name = arg.1.name) ∧
      (args.map (·.1.name)).Nodup ∧
      (∃ given t, Checker.Confirmed env sig.params s args given t) ∧
      ∀ i p, sig.params[i]? = some p → (∀ arg ∈ args, ¬Param.Takes sig.params i arg.1.name) →
        p.default.isSome ∨ p.variadic = true) ∧
    ∀ values t,
      arrange callee sig (Checker.arguments (Source.Arg.named args)) span env s = (.ok values, t) →
      ∃ given, Checker.Confirmed env sig.params s args given t ∧
        sig.Filled span args given values := by
  rw [arrange_named]
  refine ⟨⟨?_, ?_⟩, ?_⟩
  · rintro ⟨values, t, h⟩
    obtain ⟨given, hgiven, hnames, hvalues⟩ := byName_eq_ok.mp h
    have hfilled := filled_of_map_final? hgiven.length_eq hnames hvalues
    refine ⟨hgiven.mem_params, hnames, ⟨given, t, hgiven⟩, fun i p hp hfree => ?_⟩
    have hi : i < values.length := hfilled.length_eq ▸ (List.getElem?_eq_some_iff.mp hp).1
    have hleft := hfilled.leftOut_of_not_takes i p _ hp hfree (List.getElem?_eq_getElem hi)
    exact Param.isSome_leftOut?.mp (Option.isSome_of_eq_some hleft)
  · rintro ⟨-, hnames, ⟨given, t, hgiven⟩, hrest⟩
    obtain ⟨values, hvalues⟩ := exists_map_final?_eq hgiven.length_eq hnames hrest
    exact ⟨values, t, byName_eq_ok.mpr ⟨given, hgiven, hnames, hvalues⟩⟩
  · intro values t h
    obtain ⟨given, hgiven, hnames, hvalues⟩ := byName_eq_ok.mp h
    exact ⟨given, hgiven, filled_of_map_final? hgiven.length_eq hnames hvalues⟩

end CheckM

namespace Sample

def mainEnv : Env :=
  ⟨{}, "main.aura", "main", Session.load {} .empty 0⟩

def fresh : State :=
  Checker.initial {} (Session.start {})

def greeting : Signature :=
  ⟨[⟨"name", .string, false, none⟩, ⟨"mark", .string, false, some ⟨.string "!", .string, default⟩⟩,
    ⟨"times", .int, true, none⟩], .string⟩

def greetingArgs : List (Ident × Source.Expr) :=
  [(ident "mark", expr (.string "?")), (ident "name", expr (.string "you"))]

end Sample

namespace CheckM

variable {env : Env} {s t : State}

theorem arrange_named_accepted_greeting :
    ∃ given t,
      arrange "greet" Sample.greeting (Checker.arguments (Source.Arg.named Sample.greetingArgs))
        default Sample.mainEnv Sample.fresh =
        (.ok [⟨.string "you", .string, default⟩, ⟨.string "?", .string, default⟩,
          ⟨.list [], .list .int, default⟩], t) ∧
      Checker.Confirmed Sample.mainEnv Sample.greeting.params Sample.fresh Sample.greetingArgs
        given t ∧
      Sample.greeting.Filled default Sample.greetingArgs given
        [⟨.string "you", .string, default⟩, ⟨.string "?", .string, default⟩,
          ⟨.list [], .list .int, default⟩] := by
  obtain ⟨given, hgiven, hfilled⟩ := (arrange_named_accepted_iff "greet" Sample.greeting
    Sample.greetingArgs default Sample.mainEnv Sample.fresh).2 _ _ rfl
  exact ⟨given, _, rfl, hgiven, hfilled⟩

/-!
# Arguments in the order of the parameters
-/

theorem arrange_positional {callee : String} {sig : Signature} {values : List Source.Expr}
    (h : values ≠ []) {span : Span} :
    arrange callee sig (Checker.arguments (Source.Arg.positional values)) span =
      byPosition callee sig (values.map fun e => .ofExpr e (Checker.expr e)) span := by
  rw [Checker.arguments_positional]
  cases values with
  | nil => exact absurd rfl h
  | cons e values =>
      have hnone : ((e :: values).map fun e => (⟨none, .ofExpr e (Checker.expr e)⟩ : Argument)).all
          (·.name.isNone) := by simp
      unfold arrange
      rw [if_pos hnone, List.map_map]
      rfl

def occupied (params : List Param) (values : List Typed.Expr) : List Seat :=
  List.zipWith (fun p value => ⟨p, some value⟩) params values

theorem collect_seated_occupied (callee : String) (span : Span) {params : List Param}
    {values : List Typed.Expr} (h : params.length = values.length) :
    collect ((occupied params values).map (seated callee span)) = pure values := by
  induction params generalizing values with
  | nil =>
      cases List.length_eq_zero_iff.mp h.symm
      rfl
  | cons p params ih =>
      cases values with
      | nil => cases h
      | cons value values =>
          show (do let a ← pure value; let as ← collect ((occupied params values).map _)
                   pure (a :: as)) = _
          rw [ih (Nat.succ.inj h), pure_bind, pure_bind]

theorem collect_bind_eq_self {α : Type} {xs : List (CheckM α)} {f : List α → CheckM (List α)}
    (h : ∀ as, as.length = xs.length → f as = pure as) : collect xs >>= f = collect xs := by
  funext env s
  rcases hxs : collect xs env s with ⟨r, t⟩
  cases r with
  | error e => exact bind_apply_of_error hxs
  | ok as =>
      rw [bind_apply_of_ok hxs, h as (Placement.length_of_gives_collect ⟨s, t, hxs⟩)]
      rfl

theorem giveNamed_inOrder (callee : String) {args : List (Ident × Operand)} {params : List Param}
    (done : List Seat) (hfixed : ∀ p ∈ params, p.variadic = false)
    (hdistinct : ((done.map Seat.param ++ params).map (·.name)).Nodup)
    (hnames : args.map (·.1.name) = params.map (·.name)) :
    giveNamed callee args (done ++ params.map fun p => ⟨p, none⟩) = (do
      let values ← collect (List.zipWith (fun p arg => arg.2.confirm p.ty) params args)
      pure (done ++ occupied params values)) := by
  -- `done` holds the seats of the arguments before; names being distinct, the search for the next
  -- one passes over them
  induction args generalizing params done with
  | nil =>
      cases List.map_eq_nil_iff.mp hnames.symm
      rfl
  | cons arg args ih =>
      obtain ⟨p, params, rfl, hname, hnames⟩ := List.map_eq_cons_iff.mp hnames.symm
      rcases List.forall_mem_cons.mp hfixed with ⟨hp, hparams⟩
      have hfresh : ∀ seat ∈ done, seat.param.name ≠ arg.1.name := by
        intro seat hseat heq
        rw [List.map_append, List.nodup_append] at hdistinct
        exact hdistinct.2.2 _ (List.mem_map_of_mem (List.mem_map_of_mem hseat)) p.name
          List.mem_cons_self (heq.trans hname.symm)
      have hfound : Seat.find? arg.1.name (done ++ ⟨p, none⟩ :: params.map fun p => ⟨p, none⟩) =
          some ⟨p, none⟩ := Seat.find?_append_of_fresh hfresh hname
      have hgiven : ∀ value,
          Seat.give arg.1.name value (done ++ ⟨p, none⟩ :: params.map fun p => ⟨p, none⟩) =
            done ++ [⟨p, some value⟩] ++ params.map fun p => ⟨p, none⟩ := by
        intro value
        rw [← List.append_cons]
        exact Seat.give_append_of_fresh hfresh hname value
      have hrest : ∀ value, giveNamed callee args
          (done ++ [⟨p, some value⟩] ++ params.map fun p => ⟨p, none⟩) = (do
            let values ← collect (List.zipWith (fun p arg => arg.2.confirm p.ty) params args)
            pure (done ++ occupied (p :: params) (value :: values))) := by
        intro value
        rw [ih _ hparams (by simpa using hdistinct) hnames.symm]
        simp only [List.append_assoc]
        rfl
      rw [giveNamed, List.map_cons, hfound, List.zipWith_cons_cons, collect]
      show (arg.2.confirm p.bodyTy >>= fun value => giveNamed callee args _) = _
      rw [bodyTy_of_not_variadic hp]
      simp only [bind_assoc, pure_bind, hgiven, hrest]

theorem byName_inOrder (callee : String) {sig : Signature} {args : List (Ident × Operand)}
    (hfixed : ∀ p ∈ sig.params, p.variadic = false)
    (hdistinct : (sig.params.map (·.name)).Nodup)
    (hnames : args.map (·.1.name) = sig.params.map (·.name)) (span : Span) :
    byName callee sig args span =
      collect (List.zipWith (fun p arg => arg.2.confirm p.ty) sig.params args) := by
  have hlength : sig.params.length = args.length := by
    simpa using (congrArg List.length hnames).symm
  have hgive : giveNamed callee args (Seat.ofSignature sig) = _ :=
    giveNamed_inOrder callee [] hfixed hdistinct hnames
  rw [byName, hgive, bind_assoc]
  refine collect_bind_eq_self fun values hvalues => ?_
  rw [pure_bind]
  refine collect_seated_occupied callee span ?_
  rw [hvalues, List.length_zipWith, ← hlength, Nat.min_self]

theorem restParam?_eq_none {sig : Signature} (h : ∀ p ∈ sig.params, p.variadic = false) :
    sig.restParam? = none := by
  refine Option.filter_eq_none_iff.mpr fun p hp => ?_
  rw [h p (List.mem_of_getLast? hp)]
  exact Bool.false_ne_true

theorem byPosition_fixed (callee : String) {sig : Signature} {args : List Operand}
    (hfixed : ∀ p ∈ sig.params, p.variadic = false) (hlength : args.length = sig.params.length)
    (span : Span) :
    byPosition callee sig args span =
      collect (List.zipWith (fun p arg => arg.confirm p.ty) sig.params args) := by
  have hrest := restParam?_eq_none hfixed
  have hparams := fixedParams_of_none hrest
  have hfits : sig.fits args.length = true := by
    unfold Signature.fits
    rw [hrest, hparams, hlength]
    exact decide_eq_true rfl
  unfold byPosition
  rw [hfits, hparams, hrest]
  show (collect _ >>= pure) = _
  rw [bind_pure]

theorem byPosition_eq_ok {callee : String} {sig : Signature} {args : List Operand}
    (hfixed : ∀ p ∈ sig.params, p.variadic = false) {span : Span} {values : List Typed.Expr} :
    byPosition callee sig args span env s = (.ok values, t) ↔
      args.length = sig.params.length ∧
        collect (List.zipWith (fun p arg => arg.confirm p.ty) sig.params args) env s =
          (.ok values, t) := by
  by_cases hlength : args.length = sig.params.length
  · rw [byPosition_fixed callee hfixed hlength]
    exact ⟨fun h => ⟨hlength, h⟩, fun h => h.2⟩
  · refine ⟨fun h => ?_, fun h => absurd h.1 hlength⟩
    have hrest := restParam?_eq_none hfixed
    obtain ⟨_, _, hfits, -⟩ := bind_apply_eq_ok.mp h
    have hcount := (require_apply_eq_ok.mp hfits).1
    rw [← fixedParams_of_none hrest] at hlength
    exact absurd (Signature.eq_length_fixedParams_of_fits hrest hcount) hlength

theorem arrange_positional_eq_ok {callee : String} {sig : Signature} {args : List Source.Expr}
    (hfixed : ∀ p ∈ sig.params, p.variadic = false ∧ p.default = none) {span : Span}
    {values : List Typed.Expr} :
    arrange callee sig (Checker.arguments (Source.Arg.positional args)) span env s =
        (.ok values, t) ↔
      args.length = sig.params.length ∧
        collect (List.zipWith (fun p e => confirm e (Checker.expr e) p.ty) sig.params args) env s =
          (.ok values, t) := by
  cases args with
  | nil =>
      -- without arguments the call goes by name, with every parameter left out
      show byName callee sig (Checker.namedOperands []) span env s = _ ↔ _
      rw [List.zipWith_nil_right]
      cases hparams : sig.params with
      | nil =>
          rw [byName_inOrder callee (fun p hp => (hfixed p hp).1) (by rw [hparams]; exact .nil)
            (by rw [hparams]; rfl), hparams]
          exact ⟨fun h => ⟨rfl, h⟩, fun h => h.2⟩
      | cons p ps =>
          refine ⟨fun h => ?_, fun h => absurd h.1 (Nat.succ_ne_zero _).symm⟩
          obtain ⟨given, -, -, hvalues⟩ := byName_eq_ok.mp h
          have hleft : p.leftOut? span ∈ values.map some := by
            rw [← hvalues, Seat.ofSignature, hparams]
            exact List.mem_cons_self
          obtain ⟨value, -, hvalue⟩ := List.mem_map.mp hleft
          obtain ⟨hvariadic, hdefault⟩ := hfixed p (hparams ▸ List.mem_cons_self)
          rw [Param.leftOut?, hdefault, hvariadic] at hvalue
          cases hvalue
  | cons e args =>
      rw [arrange_positional (List.cons_ne_nil _ _), byPosition_eq_ok fun p hp => (hfixed p hp).1,
        List.length_map, List.zipWith_map_right]
      rfl

/-- Arguments by position and the same ones named in the order of the parameters are arranged with
the same outcome, where no parameter is variadic and their names differ. -/
theorem arrange_positional_eq_named (callee : String) (sig : Signature)
    (args : List (Ident × Source.Expr)) (span : Span) (env : Env) (s : State)
    (hfixed : ∀ p ∈ sig.params, p.variadic = false)
    (hdistinct : (sig.params.map (·.name)).Nodup)
    (hnames : args.map (·.1.name) = sig.params.map (·.name)) :
    arrange callee sig (Checker.arguments (Source.Arg.positional (args.map (·.2)))) span env s =
      arrange callee sig (Checker.arguments (Source.Arg.named args)) span env s := by
  have hlength : args.length = sig.params.length := by
    simpa using congrArg List.length hnames
  cases args with
  | nil => rfl
  | cons arg args =>
      have hoperands : (Checker.namedOperands (arg :: args)).map (·.1.name) =
          sig.params.map (·.name) := by
        rw [← hnames, Checker.namedOperands, List.map_map]
        rfl
      have hvalues : (arg :: args).map (·.2) ≠ [] := List.cons_ne_nil _ _
      rw [arrange_named, byName_inOrder callee hfixed hdistinct hoperands,
        arrange_positional hvalues,
        byPosition_fixed callee hfixed (by rw [List.length_map, List.length_map, hlength]),
        Checker.namedOperands, List.map_map, List.zipWith_map_right, List.zipWith_map_right]
      rfl

end CheckM

namespace Sample

def joining : Signature :=
  ⟨[⟨"parts", .list .string, false, none⟩, ⟨"separator", .string, false, none⟩], .string⟩

def joiningArgs : List (Ident × Source.Expr) :=
  [(ident "parts", expr (.list [])), (ident "separator", expr (.string ", "))]

end Sample

theorem CheckM.arrange_positional_eq_named_joining :
    (Sample.joining.params.map (·.name)).Nodup ∧
      arrange "join" Sample.joining
        (Checker.arguments (Source.Arg.positional (Sample.joiningArgs.map (·.2)))) default
        Sample.mainEnv Sample.fresh =
      arrange "join" Sample.joining
        (Checker.arguments (Source.Arg.named Sample.joiningArgs)) default
        Sample.mainEnv Sample.fresh :=
  have hdistinct : (Sample.joining.params.map (·.name)).Nodup := by decide
  ⟨hdistinct, arrange_positional_eq_named "join" Sample.joining Sample.joiningArgs default
    Sample.mainEnv Sample.fresh (by simp [Sample.joining]) hdistinct rfl⟩

end StaticTyping
