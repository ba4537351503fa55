import StaticTyping.Proofs.Elaboration.Tree
import StaticTyping.Proofs.Grading
import StaticTyping.Proofs.WellTyped

/-!
# Default values

The default of a parameter has to be written as a literal, of which only the outermost form is
looked at.  The items of a list and the entries of a map may be anything.  So the default that a
signature holds is made of literals throughout exactly if the one that is written is.
-/

namespace StaticTyping

open CheckM

/-!
# Literals throughout
-/

/-- An expression that is written with literals alone, at every depth. -/
inductive Source.Expr.Literal : Source.Expr → Prop where
  | int {v span} : Source.Expr.Literal ⟨.int v, span⟩
  | float {bits span} : Source.Expr.Literal ⟨.float bits, span⟩
  | string {text span} : Source.Expr.Literal ⟨.string text, span⟩
  | char {c span} : Source.Expr.Literal ⟨.char c, span⟩
  | bool {b span} : Source.Expr.Literal ⟨.bool b, span⟩
  | nil {span} : Source.Expr.Literal ⟨.nil, span⟩
  | list {items span} : (∀ item ∈ items, Source.Expr.Literal item) →
      Source.Expr.Literal ⟨.list items, span⟩
  | map {entries span} : (∀ entry ∈ entries, Source.Expr.Literal entry.key) →
      (∀ entry ∈ entries, Source.Expr.Literal entry.value) →
      Source.Expr.Literal ⟨.map entries, span⟩

/-- A checked expression that is made of literals alone, at every depth: it refers to no name, calls
nothing and runs no block. -/
inductive Typed.Expr.Literal : Typed.Expr → Prop where
  | int {v ty span} : Typed.Expr.Literal ⟨.int v, ty, span⟩
  | float {bits ty span} : Typed.Expr.Literal ⟨.float bits, ty, span⟩
  | string {text ty span} : Typed.Expr.Literal ⟨.string text, ty, span⟩
  | char {c ty span} : Typed.Expr.Literal ⟨.char c, ty, span⟩
  | bool {b ty span} : Typed.Expr.Literal ⟨.bool b, ty, span⟩
  | nil {ty span} : Typed.Expr.Literal ⟨.nil, ty, span⟩
  | list {items ty span} : (∀ item ∈ items, Typed.Expr.Literal item) →
      Typed.Expr.Literal ⟨.list items, ty, span⟩
  | map {entries ty span} : (∀ entry ∈ entries, Typed.Expr.Literal entry.key) →
      (∀ entry ∈ entries, Typed.Expr.Literal entry.value) →
      Typed.Expr.Literal ⟨.map entries, ty, span⟩

theorem exists_mem_of_forall₂ {α β : Type} {R : α → β → Prop} {as : List α} {bs : List β}
    (h : List.Forall₂ R as bs) : ∀ b ∈ bs, ∃ a ∈ as, R a b := by
  induction h with
  | nil => exact List.forall_mem_nil _
  | cons hab _ ih =>
      intro b hb
      rcases List.mem_cons.mp hb with rfl | hb
      · exact ⟨_, List.mem_cons_self, hab⟩
      · rcases ih b hb with ⟨a, ha, hr⟩
        exact ⟨a, List.mem_cons_of_mem _ ha, hr⟩

namespace Source.Expr.Elaborates

variable {vars : String → Bool} {e : Source.Expr} {e' : Typed.Expr}

theorem isLiteral_eq (h : e.Elaborates vars e') : e'.isLiteral = e.isLiteral := by
  cases h with
  | intro h => cases h <;> rfl

theorem literal (h : e.Elaborates vars e') (he : e.Literal) : e'.Literal := by
  induction he generalizing e' with
  | list _ ih =>
      rcases h with ⟨⟨⟩⟩
      next hitems =>
        apply Typed.Expr.Literal.list
        intro item' hitem'
        rcases exists_mem_of_forall₂ hitems item' hitem' with ⟨item, hitem, hpair⟩
        exact ih item hitem hpair
  | map _ _ ihkey ihvalue =>
      rcases h with ⟨⟨⟩⟩
      next hentries =>
        apply Typed.Expr.Literal.map
        · intro entry' hentry'
          rcases exists_mem_of_forall₂ hentries entry' hentry' with ⟨entry, hentry, ⟨hkey, _⟩⟩
          exact ihkey _ hentry hkey
        · intro entry' hentry'
          rcases exists_mem_of_forall₂ hentries entry' hentry' with ⟨entry, hentry, ⟨_, hvalue⟩⟩
          exact ihvalue _ hentry hvalue
  | _ =>
      rcases h with ⟨⟨⟩⟩
      constructor

theorem literal_of_typed (h : e.Elaborates vars e') (he : e'.Literal) : e.Literal := by
  induction he generalizing e with
  | list _ ih =>
      rcases h with ⟨⟨⟩⟩
      next hitems =>
        apply Source.Expr.Literal.list
        intro item hitem
        rcases exists_mem_of_forall₂ hitems.flip item hitem with ⟨item', hitem', hpair⟩
        exact ih item' hitem' hpair
  | map _ _ ihkey ihvalue =>
      rcases h with ⟨⟨⟩⟩
      next hentries =>
        apply Source.Expr.Literal.map
        · intro entry hentry
          rcases exists_mem_of_forall₂ hentries.flip entry hentry with ⟨entry', hentry', ⟨hkey, _⟩⟩
          exact ihkey _ hentry' hkey
        · intro entry hentry
          rcases exists_mem_of_forall₂ hentries.flip entry hentry with
            ⟨entry', hentry', ⟨_, hvalue⟩⟩
          exact ihvalue _ hentry' hvalue
  | _ =>
      rcases h with ⟨⟨⟩⟩
      constructor

theorem literal_iff (h : e.Elaborates vars e') : e'.Literal ↔ e.Literal :=
  ⟨h.literal_of_typed, h.literal⟩

end Source.Expr.Elaborates

/-!
# Parameters
-/

namespace Checker

variable {env : Env}

theorem isLiteral_of_param {name : Ident} {ty : Ty} {variadic : Bool} {default : Option Source.Expr}
    {p : Param} (h : (param name ty variadic (defaultOption default)).MayGive env p) :
    ∀ e ∈ default, e.isLiteral := by
  cases default with
  | none => exact fun _ he => absurd he (Option.not_mem_none _)
  | some e =>
      rcases h.of_bind with ⟨_, _, hrest⟩
      rcases hrest.of_bind with ⟨_, hvalue, _⟩
      rcases hvalue.of_bind with ⟨_, ⟨_, _, hrequire⟩, _⟩
      intro e' he'
      cases he'
      unfold require at hrequire
      split at hrequire
      next hliteral => exact hliteral
      next => cases hrequire

theorem isLiteral_of_params {ps : List Source.Param} {params : List Param}
    (h : (collect (Checker.params ps)).MayGive env params) :
    ∀ p ∈ ps, ∀ e ∈ p.default, e.isLiteral := by
  induction ps generalizing params with
  | nil => exact List.forall_mem_nil _
  | cons p ps ih =>
      rcases p with ⟨name, ty, variadic, default⟩
      rcases h.of_bind with ⟨_, hparam, hrest⟩
      rcases hrest.of_bind with ⟨_, hparams, _⟩
      exact List.forall_mem_cons.mpr ⟨isLiteral_of_param hparam, ih hparams⟩

theorem elaborates_params {ps : List Source.Param} {params : List Param} {s t : State}
    (h : collect (Checker.params ps) env s = (.ok params, t)) :
    List.Forall₂ (Source.Param.Elaborates fun _ => true) ps params := by
  have hmet : Source.Met (Source.Param.allMeet {} ps) :=
    Source.Condition.Vacuous.empty.entailed.ofParams ps False.elim
  have hgives := CheckM.Gives.collect ((Naming.all env).paramList ps hmet)
  exact (hgives s (Session.calls_all _)).2 params (congrArg Prod.fst h)

/--
The default of a parameter is a literal by its outermost form, and it is a literal throughout
exactly if it is written so.
-/
theorem defaults_literal_iff {env : Env} {s t : State} {ps : List Source.Param}
    {params : List Param} (h : collect (Checker.params ps) env s = (.ok params, t)) :
    List.Forall₂ (fun p param =>
      Option.Rel (fun e d => d.isLiteral = true ∧ (d.Literal ↔ e.Literal)) p.default param.default)
        ps params ∧
    ((∀ param ∈ params, ∀ d ∈ param.default, d.Literal) ↔
      ∀ p ∈ ps, ∀ e ∈ p.default, e.Literal) := by
  have hpairs := elaborates_params h
  have hliteral : ∀ p ∈ ps, ∀ e ∈ p.default, e.isLiteral := isLiteral_of_params ⟨s, t, h⟩
  clear h
  induction hpairs with
  | nil => simp
  | cons hpair _ ih =>
      rcases List.forall_mem_cons.mp hliteral with ⟨hfirst, hrest⟩
      rcases ih hrest with ⟨hpairs, hall⟩
      rcases hpair with ⟨_, hdefault⟩
      simp only [List.forall_mem_cons, hall]
      cases hdefault with
      | none => exact ⟨.cons .none hpairs, by simp⟩
      | some he =>
          have hsame := he.literal_iff
          refine ⟨.cons (.some ⟨he.isLiteral_eq.trans (hfirst _ rfl), hsame⟩) hpairs, ?_⟩
          simp [hsame]

end Checker

namespace Sample

def withDefault (name : String) (ty : Ty) (value : Source.Expr) : Source.Param :=
  ⟨ident name, ty, false, some value⟩

def nested : List Source.Param :=
  [withDefault "rows" (.list (.list .int))
      (expr (.list [expr (.list [expr (.int 1)]), expr (.list [])])),
    withDefault "marks" (.map .string .bool)
      (expr (.map [⟨expr (.string "a"), expr (.bool true)⟩]))]

/-- A list whose item is the result of a call. -/
def calling : Source.Param :=
  withDefault "items" (.list .int) (expr (.list [expr (.call (var "one") [] default)]))

/-- A function that gives a number. -/
def one : Source.Stmt :=
  returning "one" [] (expr (.int 1))

/-- Surroundings without packages. -/
def bareEnv : Env :=
  ⟨{}, "main.aura", "main", Session.load {} .empty 0⟩

/-- Where the function is declared. -/
def oneState : State :=
  (Checker.stmt one bareEnv (Checker.initial {} (Session.start {}))).2

end Sample

theorem Checker.defaults_literal_iff_nested :
    ∃ params t, collect (Checker.params Sample.nested) Sample.bareEnv Sample.oneState =
        (.ok params, t) ∧
      params.length = 2 ∧ ∀ param ∈ params, ∀ d ∈ param.default, d.Literal := by
  have hwritten : ∀ p ∈ Sample.nested, ∀ e ∈ p.default, e.Literal := by
    unfold Sample.nested Sample.withDefault Sample.expr
    simp only [List.forall_mem_cons, Option.mem_def, Option.some.injEq, forall_eq']
    refine ⟨.list ?_, .map ?_ ?_, List.forall_mem_nil _⟩
    · simp only [List.forall_mem_cons]
      refine ⟨.list ?_, .list (List.forall_mem_nil _), List.forall_mem_nil _⟩
      exact List.forall_mem_singleton.mpr .int
    · exact List.forall_mem_singleton.mpr .string
    · exact List.forall_mem_singleton.mpr .bool
  have hruns : ∃ params t, collect (Checker.params Sample.nested) Sample.bareEnv Sample.oneState =
      (.ok params, t) ∧ params.length = 2 :=
    ⟨_, _, rfl, rfl⟩
  rcases hruns with ⟨params, t, hrun, hlength⟩
  exact ⟨params, t, hrun, hlength, (defaults_literal_iff hrun).2.mpr hwritten⟩

/-- A default that calls a function is accepted and held by the signature, inside of a list. -/
theorem Session.default_holds_call :
    (check {} .empty (Sample.file "main" [Sample.one, Sample.returning "total" [Sample.calling]
      (Sample.expr (.int 0))]) (start {})).1.isOk = true ∧
    ∃ p t d, collect (Checker.params [Sample.calling]) Sample.bareEnv Sample.oneState =
        (.ok [p], t) ∧
      p.default = some d ∧ ¬d.Literal := by
  refine ⟨rfl, _, _, _, rfl, rfl, ?_⟩
  intro h
  cases h with
  | list hitems =>
      cases hitems _ List.mem_cons_self

end StaticTyping
