import StaticTyping.Proofs.Elaboration.Rules
import StaticTyping.Proofs.Growth
import StaticTyping.Proofs.Order.Run

/-!
# Packages that are left out

A check that goes through to its end, with nothing reported, has gone through every part of its
tree, and so has loaded every package that is imported anywhere in it.  This is put the other way
round: if a package is not there in the end, then it was not there before, and no part of the tree
imports it.
-/

namespace StaticTyping

open CheckM Source

variable {α β γ : Type}

structure State.Lacks (package : String) (s : State) : Prop where
  quiet : s.report.reported = false
  absent : ¬s.session.Has package

/-- A loader that takes no package away, and leaves the one that it has loaded. -/
structure Loader.Provides (load : Loader) : Prop where
  keeps : ∀ package {σ other}, σ.Has other → (load package σ).2.Has other
  gives : ∀ {package σ m}, (load package σ).1 = .ok m → (load package σ).2.Has package

def CheckM.Omits (package : String) (env : Env) (x : CheckM α) (P : α → Prop) : Prop :=
  ∀ s : State, (x env s).2.Lacks package →
    s.Lacks package ∧ ∀ a, (x env s).1 = .ok a → P a

namespace CheckM.Omits

variable {package : String} {env : Env} {P Q : α → Prop} {R : β → Prop}

/-!
# Checks in general
-/

theorem pure {a : α} (h : P a) : (pure a : CheckM α).Omits package env P := by
  intro s hs
  constructor
  · exact hs
  · intro b hb
    cases hb
    exact h

theorem fail (cause : Cause) (line : UInt32) :
    (CheckM.fail cause line : CheckM α).Omits package env P := by
  intro s hs
  constructor
  · exact hs
  · intro b hb
    cases hb

theorem bind {x : CheckM α} {f : α → CheckM β} (hx : x.Omits package env P)
    (hf : ∀ a, (f a).Omits package env fun b => P a → R b) : (x >>= f).Omits package env R := by
  intro s hs
  rcases hrun : x env s with ⟨r, t⟩
  have hbefore := hx s
  rw [hrun] at hbefore
  cases r with
  | ok a =>
      rw [bind_apply_of_ok hrun] at hs ⊢
      rcases hf a t hs with ⟨ht, hvalue⟩
      rcases hbefore ht with ⟨hs, ha⟩
      exact ⟨hs, fun b hb => hvalue b hb (ha a rfl)⟩
  | error e =>
      rw [bind_apply_of_error hrun] at hs ⊢
      constructor
      · exact (hbefore hs).1
      · intro b hb
        cases hb

theorem mono {x : CheckM α} (hx : x.Omits package env P) (h : ∀ a, P a → Q a) :
    x.Omits package env Q :=
  fun s hs => ⟨(hx s hs).1, fun a ha => h a ((hx s hs).2 a ha)⟩

theorem map {x : CheckM α} {f : α → β} (hx : x.Omits package env P) (h : ∀ a, P a → R (f a)) :
    (f <$> x).Omits package env R := by
  rw [← bind_pure_comp]
  exact hx.bind fun a => .pure (h a)

theorem require {ok : Bool} {cause : Cause} {line : UInt32} :
    (CheckM.require ok cause line).Omits package env fun _ => ok = true := by
  unfold CheckM.require
  cases ok with
  | true => exact .pure rfl
  | false => exact .fail cause line

theorem mapCause {x : CheckM α} (hx : x.Omits package env P) (f : Cause → Cause) :
    (CheckM.mapCause f x).Omits package env P := by
  intro s hs
  have h := hx s
  unfold CheckM.mapCause at hs ⊢
  rcases hrun : x env s with ⟨r, t⟩
  rw [hrun] at h hs
  cases r with
  | ok a => exact h hs
  | error e =>
      constructor
      · exact (h hs).1
      · intro a ha
        cases ha

theorem collect {S : β → α → Prop} {bs : List β} {xs : List (CheckM α)}
    (h : List.Forall₂ (fun b x => x.Omits package env (S b)) bs xs) :
    (CheckM.collect xs).Omits package env (List.Forall₂ S bs) := by
  induction h with
  | nil => exact .pure .nil
  | cons hx _ ih => exact hx.bind fun a => ih.bind fun as => .pure fun has ha => .cons ha has

theorem optional {S : β → Prop} {o : Option β} {x : Option (CheckM α)}
    (h : Option.Rel (fun b x => x.Omits package env fun _ => S b) o x) :
    (CheckM.optional x).Omits package env fun _ => ∀ b ∈ o, S b := by
  cases h with
  | none => exact .pure fun b hb => absurd hb (Option.not_mem_none b)
  | some hx =>
      exact hx.bind fun a => .pure fun ha b hb => by
        cases hb
        exact ha

theorem around {enter leave : Env → State → State} {x : CheckM α} (hx : x.Omits package env P)
    (henter : ∀ s, (enter env s).Lacks package → s.Lacks package)
    (hleave : ∀ s, (leave env s).Lacks package → s.Lacks package) :
    (CheckM.around enter leave x).Omits package env P := by
  intro s hs
  rcases hx (enter env s) (hleave _ hs) with ⟨hentered, hvalue⟩
  exact ⟨henter s hentered, hvalue⟩

theorem inScope {x : CheckM α} (hx : x.Omits package env P) :
    (CheckM.inScope x).Omits package env P :=
  hx.around (fun _ h => ⟨h.quiet, h.absent⟩) fun _ h => ⟨h.quiet, h.absent⟩

theorem inStmt (c : StmtContext) {x : CheckM α} (hx : x.Omits package env P) :
    (CheckM.inStmt c x).Omits package env P :=
  hx.around (fun _ h => ⟨h.quiet, h.absent⟩) fun _ h => ⟨h.quiet, h.absent⟩

theorem inExpr (c : ExprContext) {x : CheckM α} (hx : x.Omits package env P) :
    (CheckM.inExpr c x).Omits package env P :=
  hx.around (fun _ h => ⟨h.quiet, h.absent⟩) fun _ h => ⟨h.quiet, h.absent⟩

theorem inClass (c : ClassTy) {x : CheckM α} (hx : x.Omits package env P) :
    (CheckM.inClass c x).Omits package env P :=
  hx.around (fun _ h => ⟨h.quiet, h.absent⟩) fun _ h => ⟨h.quiet, h.absent⟩

theorem attempt {x : CheckM α} (hx : x.Omits package env P) :
    (CheckM.attempt x).Omits package env fun o => ∃ a, o = some a ∧ P a := by
  intro s hs
  have h := hx s
  rcases hrun : x env s with ⟨r, t⟩
  rw [hrun] at h
  cases r with
  | ok a =>
      rw [attempt_apply_of_ok hrun] at hs ⊢
      rcases h hs with ⟨hbefore, hvalue⟩
      refine ⟨hbefore, fun o ho => ?_⟩
      cases ho
      exact ⟨a, rfl, hvalue a rfl⟩
  | error e =>
      rw [attempt_apply_of_error hrun] at hs
      exact (Bool.false_ne_true (hs.quiet.symm.trans (Batch.reported_push _ _))).elim

end CheckM.Omits

/-!
# Checks that tell nothing
-/

theorem Session.hasMore_tableFree (package : String) :
    Session.TableFree fun σ τ => σ.Has package → τ.Has package where
  refl _ h := h
  trans h h' hσ := h' (h hσ)
  tables _ _ h := h

def Frame.lacking (package : String) (env : Env) (hload : env.load.Provides) : Frame env {} where
  rel s t := t.Lacks package → s.Lacks package
  imports := True
  one _ := .inl trivial
  many _ := .inl trivial
  refl _ h := h
  trans h h' ht := h (h' ht)
  declare _ _ _ h := ⟨h.quiet, h.absent⟩
  standard _ s := by
    rw [importStandard_apply]
    exact fun h => ⟨h.quiet, h.absent⟩
  importModule _ i s h := by
    have hreport := (Frame.reporting env).importModule trivial i s
    have hhas := ((Session.hasMore_tableFree package).frame env fun other _ =>
      hload.keeps other).importModule trivial i s
    constructor
    · exact Bool.eq_false_iff.mpr fun hs => Bool.false_ne_true (h.quiet.symm.trans (hreport hs))
    · exact fun hs => h.absent (hhas hs)
  inScope h ht :=
    have hs := h ⟨ht.quiet, ht.absent⟩
    ⟨hs.quiet, hs.absent⟩
  inStmt h ht :=
    have hs := h ⟨ht.quiet, ht.absent⟩
    ⟨hs.quiet, hs.absent⟩
  inExpr h ht :=
    have hs := h ⟨ht.quiet, ht.absent⟩
    ⟨hs.quiet, hs.absent⟩
  inClass h ht :=
    have hs := h ⟨ht.quiet, ht.absent⟩
    ⟨hs.quiet, hs.absent⟩
  report _ d s h := (Bool.false_ne_true (h.quiet.symm.trans (s.report.reported_push d))).elim

/-- A package and surroundings in which loading takes nothing away. -/
structure Omission where
  package : String
  env : Env
  provides : env.load.Provides

namespace Omission

variable (O : Omission)

abbrev frame : Frame O.env {} :=
  .lacking O.package O.env O.provides

abbrev Omits (x : CheckM α) (P : α → Prop) : Prop :=
  x.Omits O.package O.env P

variable {O}

theorem ofKeeps {x : CheckM α} (h : O.frame.Keeps x) : O.Omits x fun _ => True :=
  fun s hs => ⟨h s hs, fun _ _ => trivial⟩

theorem keepsThen {x : CheckM α} {f : α → CheckM β} {R : β → Prop} (hx : O.frame.Keeps x)
    (hf : ∀ a, O.Omits (f a) R) : O.Omits (x >>= f) R :=
  (ofKeeps hx).bind fun a => (hf a).mono fun _ h _ => h

theorem thenKeeps {x : CheckM α} {f : α → CheckM β} {P : Prop} (hx : O.Omits x fun _ => P)
    (hf : ∀ a, O.frame.Keeps (f a)) : O.Omits (x >>= f) fun _ => P :=
  hx.bind fun a => (ofKeeps (hf a)).mono fun _ _ h => h

/-!
# Operands and arguments
-/

/-- An operand that leaves the package out, checked or confirmed. -/
structure Operand (O : Omission) (o : StaticTyping.Operand) (P : Prop) : Prop where
  check : O.Omits o.check fun _ => P
  confirm : ∀ ty, O.Omits (o.confirm ty) fun _ => P

theorem operand {e : Source.Expr} {check : CheckM Typed.Expr} {P : Prop}
    (h : O.Omits check fun _ => P) (hadopted : ∀ {ty literal}, adopted? e ty = some literal → P) :
    O.Operand (.ofExpr e check) P := by
  constructor
  · exact h
  · intro ty
    have hadopt : O.Omits (adoptOr e check ty) fun _ => P := by
      unfold adoptOr
      split
      next literal hliteral => exact .pure (hadopted hliteral)
      next => exact h
    exact thenKeeps hadopt fun typed => (Closure.Has.view _).bind fun ok =>
      (Closure.Has.require ok _ _).bind fun _ => .pure typed

theorem forall_of_forall₂ {S : γ → Prop} {cs : List γ} {as : List α}
    (h : List.Forall₂ (fun c _ => S c) cs as) : ∀ c ∈ cs, S c := by
  induction h with
  | nil => exact fun c hc => absurd hc List.not_mem_nil
  | cons hc _ ih => exact List.forall_mem_cons.mpr ⟨hc, ih⟩

theorem byPosition {callee : String} {sig : Signature} {S : γ → Prop} {cs : List γ}
    {os : List StaticTyping.Operand} {span : Span}
    (h : List.Forall₂ (fun c o => O.Operand o (S c)) cs os) :
    O.Omits (CheckM.byPosition callee sig os span) fun _ => ∀ c ∈ cs, S c := by
  have hfixed : O.Omits (CheckM.collect (List.zipWith (fun p arg => arg.confirm p.ty)
      sig.fixedParams os)) (List.Forall₂ (fun c _ => S c) (cs.take sig.fixedParams.length)) :=
    .collect (forall₂_take_zipWith (fun ho p => ho.confirm p.ty) h sig.fixedParams)
  apply Omits.require.bind
  intro _
  apply hfixed.bind
  intro values
  -- with nothing to absorb the rest, the fixed parameters have taken every argument
  cases hrest : sig.restParam? with
  | none =>
      apply Omits.pure
      intro hvalues hfits
      have hcount := Signature.eq_length_fixedParams_of_fits hrest hfits
      rw [← hcount, ← h.length_eq, List.take_length] at hvalues
      exact forall_of_forall₂ hvalues
  | some p =>
      have habsorbed : O.Omits (CheckM.collect ((os.drop sig.fixedParams.length).map
          (·.confirm p.ty))) (List.Forall₂ (fun c _ => S c) (cs.drop sig.fixedParams.length)) := by
        apply Omits.collect
        rw [List.forall₂_map_right_iff]
        exact (List.forall₂_drop _ h).imp fun _ _ ho => ho.confirm p.ty
      apply habsorbed.bind
      intro absorbed
      apply Omits.pure
      intro hrest hfixed _ c hc
      rw [← List.take_append_drop sig.fixedParams.length cs] at hc
      rcases List.mem_append.mp hc with hc | hc
      · exact forall_of_forall₂ hfixed c hc
      · exact forall_of_forall₂ hrest c hc

theorem giveNamed {callee : String} {S : γ → Prop} {cs : List γ}
    {named : List (Ident × StaticTyping.Operand)}
    (h : List.Forall₂ (fun c n => O.Operand n.2 (S c)) cs named) (seats : List Seat) :
    O.Omits (CheckM.giveNamed callee named seats) fun _ => ∀ c ∈ cs, S c := by
  induction h generalizing seats with
  | nil => exact .pure fun c hc => absurd hc List.not_mem_nil
  | cons hn _ ih =>
      apply keepsThen (.orFail _ _ _)
      intro seat
      apply keepsThen (.require _ _ _)
      intro _
      exact (hn.confirm _).bind fun value => (ih _).mono fun _ hrest hfirst =>
        List.forall_mem_cons.mpr ⟨hfirst, hrest⟩

theorem byName {callee : String} {sig : Signature} {S : γ → Prop} {cs : List γ}
    {named : List (Ident × StaticTyping.Operand)} {span : Span}
    (h : List.Forall₂ (fun c n => O.Operand n.2 (S c)) cs named) :
    O.Omits (CheckM.byName callee sig named span) fun _ => ∀ c ∈ cs, S c := by
  apply thenKeeps (giveNamed h _)
  intro seats
  apply Closure.Has.collect
  intro x hx
  rcases List.mem_map.mp hx with ⟨seat, _, rfl⟩
  exact O.frame.closure.seated callee span seat

theorem arrange {callee : String} {sig : Signature} {S : γ → Prop} {cs : List γ}
    {args : List Argument} {span : Span}
    (h : List.Forall₂ (fun c a => O.Operand a.value (S c)) cs args) :
    O.Omits (CheckM.arrange callee sig args span) fun _ => ∀ c ∈ cs, S c := by
  unfold CheckM.arrange
  split
  next hempty =>
    cases List.isEmpty_iff.mp hempty
    cases h
    exact byName .nil
  next =>
    split
    next =>
      apply byPosition
      rw [List.forall₂_map_right_iff]
      exact h
    next =>
      split
      next hnamed => exact byName (forall₂_namedOnly h hnamed)
      next => exact .fail _ _

/-!
# Members and calls
-/

theorem member {e : Source.Expr} {check : CheckM Typed.Expr} {P : Prop}
    (h : O.Omits check fun _ => P) (hvar : ∀ {var span}, e = ⟨.var var, span⟩ → P) (name : Ident) :
    O.Omits (CheckM.member e check name) fun _ => P := by
  rcases e with ⟨kind, span⟩
  have hfound : O.Omits (importNamed? ⟨kind, span⟩) fun found => found.isSome → P := by
    unfold importNamed?
    split
    next var hkind =>
      apply keepsThen (.view _)
      intro scope
      have hkind : kind = .var var := hkind
      subst hkind
      exact .pure fun _ => hvar rfl
    next => exact .pure fun hsome => absurd hsome Bool.false_ne_true
  apply hfound.bind
  intro found
  cases found with
  | some found =>
      exact (ofKeeps ((Closure.Has.orFail _ _ _).bind fun ty => .pure _)).mono
        fun _ _ hP => hP rfl
  | none =>
      exact (thenKeeps h fun object => O.frame.closure.valueMember object name).mono
        fun _ hP _ => hP

theorem call (e : Source.Expr) {check : CheckM Typed.Expr} {P : Prop}
    (h : O.Omits check fun _ => P) {S : γ → Prop} {cs : List γ} {args : List Argument}
    (hargs : List.Forall₂ (fun c a => O.Operand a.value (S c)) cs args) (span : Span) :
    O.Omits (CheckM.call e check args span) fun _ => P ∧ ∀ c ∈ cs, S c := by
  apply h.bind
  intro callee
  apply keepsThen (.orFail _ _ _)
  intro sig
  apply keepsThen (O.frame.closure.argumentSignature _ sig callee _ _)
  intro sig
  exact (arrange hargs).bind fun values => .pure fun hvalues hcallee => ⟨hcallee, hvalues⟩

/-!
# Declarations
-/

theorem param (name : Ident) (ty : Ty) (variadic : Bool) {S : γ → Prop} {c : Option γ}
    {default? : Option (Source.Expr × StaticTyping.Operand)}
    (h : Option.Rel (fun c d => O.Operand d.2 (S c)) c default?) :
    O.Omits (CheckM.param name ty variadic default?) fun _ => ∀ x ∈ c, S x := by
  apply keepsThen (O.frame.closure.resolveTy _ _)
  intro ty
  cases h with
  | none => exact .pure fun x hx => absurd hx (Option.not_mem_none x)
  | some hd =>
      apply Omits.bind (keepsThen (.require _ _ _) fun _ => hd.confirm _)
      intro value
      apply Omits.pure
      intro hS x hx
      cases hx
      exact hS

theorem signature {S : γ → Prop} {cs : List γ} {params : List (CheckM Param)}
    (h : List.Forall₂ (fun c x => O.Omits x fun _ => S c) cs params) (ret : Option Ty)
    (line : UInt32) : O.Omits (CheckM.signature params ret line) fun _ => ∀ c ∈ cs, S c := by
  apply thenKeeps ((Omits.collect h).mono fun _ hcs => forall_of_forall₂ hcs)
  intro params
  exact (O.frame.closure.resultTy ret line).bind fun _ => .pure _

theorem classHead (name : Ident) (visibility : Visibility) {S : γ → Prop} {cs : List γ}
    {params : List (CheckM Param)}
    (hparams : List.Forall₂ (fun c x => O.Omits x fun _ => S c) cs params) {T : β → Prop}
    {bs : List β} {methods : List (CheckM NamedFunction)}
    (hmethods : List.Forall₂ (fun b x => O.Omits x fun _ => T b) bs methods)
    (implements : List Ident) :
    O.Omits (CheckM.classHead name visibility params methods implements) fun sig =>
      sig.methods.length = bs.length ∧ (∀ c ∈ cs, S c) ∧ ∀ b ∈ bs, T b := by
  apply (Omits.collect hparams).bind
  intro params
  apply (Omits.collect hmethods).bind
  intro methods
  apply keepsThen (O.frame.closure.implemented implements)
  intro implements
  exact .pure fun hmethods hparams =>
    ⟨hmethods.length_eq.symm, forall_of_forall₂ hparams, forall_of_forall₂ hmethods⟩

theorem interfaceDecl (name : Ident) (visibility : Visibility) {S : γ → Prop} {cs : List γ}
    {methods : List (CheckM NamedFunction)}
    (h : List.Forall₂ (fun c x => O.Omits x fun _ => S c) cs methods) (span : Span) :
    O.Omits (CheckM.interfaceDecl (interfaceHead name visibility methods) span)
      fun _ => ∀ c ∈ cs, S c := by
  have hhead : O.Omits (interfaceHead name visibility methods) fun _ => ∀ c ∈ cs, S c :=
    thenKeeps ((Omits.collect h).mono fun _ hcs => forall_of_forall₂ hcs) fun _ => .pure _
  exact thenKeeps hhead fun _ => (O.frame.closure.declareAll _).bind fun _ => .pure _

theorem binding (name : Ident) (isMutable : Bool) (written : Option Ty) {S : γ → Prop}
    {c : Option γ} {init : Option StaticTyping.Operand}
    (h : Option.Rel (fun c o => O.Operand o (S c)) c init) (span : Span) :
    O.Omits (CheckM.binding name isMutable written init span) fun _ => ∀ x ∈ c, S x := by
  have hvalue : O.Omits (bindingValue name written init span) fun _ => ∀ x ∈ c, S x := by
    cases h with
    | none =>
        have hkeeps := O.frame.closure.bindingValue name written
          (fun o ho => absurd ho (Option.not_mem_none o)) span
        exact (ofKeeps hkeeps).mono fun _ _ x hx => absurd hx (Option.not_mem_none x)
    | @some x o ho =>
        have hall : S x → ∀ y ∈ some x, S y := fun hx y hy => by
          cases hy
          exact hx
        cases written with
        | some ty =>
            apply keepsThen (O.frame.closure.resolveTy _ _)
            intro ty
            exact thenKeeps ((ho.confirm ty).mono fun _ => hall) fun _ => .pure _
        | none => exact thenKeeps (ho.check.mono fun _ => hall) fun _ => .pure _
  exact Omits.inStmt _ (thenKeeps hvalue fun _ => Closure.Has.bind (O.frame.declare _ _)
    fun _ => .pure _)

theorem functionBody (sig : Signature) {body : CheckM Typed.Block} {P : Prop}
    (h : O.Omits body fun _ => P) (line : UInt32) :
    O.Omits (CheckM.functionBody sig body line) fun _ => P :=
  Omits.inStmt _ <| Omits.inScope <| keepsThen (O.frame.closure.declareAll _) fun _ =>
    thenKeeps h fun body => (Closure.Has.require _ _ _).bind fun _ => .pure body

theorem functionOf (name : Ident) {body : CheckM Typed.Block} {P : Prop}
    (h : O.Omits body fun _ => P) (line : UInt32) (sig : NamedFunction) :
    O.Omits (CheckM.functionOf name body line sig) fun _ => P :=
  thenKeeps (functionBody sig.sig h line) fun _ => .pure _

theorem functionDecl (name : Ident) {sig : CheckM NamedFunction} {P P' : Prop}
    (hsig : O.Omits sig fun _ => P) {body : CheckM Typed.Block} (hbody : O.Omits body fun _ => P')
    (span : Span) : O.Omits (CheckM.functionDecl name sig body span) fun _ => P ∧ P' := by
  apply hsig.bind
  intro sig
  apply keepsThen (O.frame.declare _ _)
  intro _
  exact (functionOf name hbody span.line sig).bind fun _ => .pure fun hP' hP => ⟨hP, hP'⟩

theorem classDecl (name : Ident) {sig : CheckM ClassTy} {P : Prop} {S : γ → Prop} {cs : List γ}
    (hsig : O.Omits sig fun sig => sig.methods.length = cs.length ∧ P)
    {methods : List (NamedFunction → CheckM Typed.Function)}
    (hmethods : List.Forall₂ (fun c check => ∀ f, O.Omits (check f) fun _ => S c) cs methods)
    (span : Span) :
    O.Omits (CheckM.classDecl name sig methods span) fun _ => P ∧ ∀ c ∈ cs, S c := by
  apply hsig.bind
  intro sig
  apply keepsThen (O.frame.declare _ _)
  intro _
  have hbodies : O.Omits (CheckM.collect (List.zipWith (fun check f => check f) methods
      sig.methods)) (List.Forall₂ (fun c _ => S c) (cs.take sig.methods.length)) := by
    rw [List.zipWith_comm]
    exact .collect (forall₂_take_zipWith (fun hcheck f => hcheck f) hmethods sig.methods)
  apply (hbodies.inClass sig).inScope.inStmt _ |>.bind
  intro typed
  apply keepsThen (O.frame.closure.requireInterfaces sig _ _)
  intro _
  apply Omits.pure
  intro hbodies hsig
  rw [hsig.1, List.take_length] at hbodies
  exact ⟨hsig.2, forall_of_forall₂ hbodies⟩

/-!
# Expressions
-/

theorem listLiteral {S : γ → Prop} {cs : List γ} {items : List StaticTyping.Operand}
    (h : List.Forall₂ (fun c o => O.Operand o (S c)) cs items) (span : Span) :
    O.Omits (CheckM.listLiteral items span) fun _ => ∀ c ∈ cs, S c := by
  cases h with
  | nil => exact .pure fun c hc => absurd hc List.not_mem_nil
  | @cons _ _ cs rest hfirst hrest =>
      apply hfirst.check.bind
      intro first
      have hitems : O.Omits (CheckM.collect (rest.map (·.confirm first.ty)))
          (List.Forall₂ (fun c _ => S c) cs) := by
        apply Omits.collect
        rw [List.forall₂_map_right_iff]
        exact hrest.imp fun _ _ ho => ho.confirm first.ty
      exact hitems.bind fun _ => .pure fun hrest hfirst =>
        List.forall_mem_cons.mpr ⟨hfirst, forall_of_forall₂ hrest⟩

theorem mapLiteral {S T : γ → Prop} {cs : List γ}
    {entries : List (StaticTyping.Operand × StaticTyping.Operand)}
    (h : List.Forall₂ (fun c e => O.Operand e.1 (S c) ∧ O.Operand e.2 (T c)) cs entries)
    (span : Span) : O.Omits (CheckM.mapLiteral entries span) fun _ => ∀ c ∈ cs, S c ∧ T c := by
  cases h with
  | nil => exact .pure fun c hc => absurd hc List.not_mem_nil
  | @cons _ _ cs rest hfirst hrest =>
      apply hfirst.1.check.bind
      intro key
      apply hfirst.2.check.bind
      intro value
      have hentries : O.Omits (CheckM.collect (rest.map (mapEntry key.ty value.ty)))
          (List.Forall₂ (fun c _ => S c ∧ T c) cs) := by
        apply Omits.collect
        rw [List.forall₂_map_right_iff]
        apply hrest.imp
        intro c e he
        exact (he.1.confirm _).bind fun _ => (he.2.confirm _).bind fun _ =>
          .pure fun hT hS => ⟨hS, hT⟩
      exact hentries.bind fun _ => .pure fun hrest hvalue hkey =>
        List.forall_mem_cons.mpr ⟨⟨hkey, hvalue⟩, forall_of_forall₂ hrest⟩

theorem block {S : γ → Prop} {cs : List γ} {stmts : List (CheckM Typed.Stmt)}
    (h : List.Forall₂ (fun c x => O.Omits x fun _ => S c) cs stmts) (span : Span) :
    O.Omits (CheckM.block stmts span) fun _ => ∀ c ∈ cs, S c :=
  Omits.inExpr _ <| Omits.inScope <|
    thenKeeps ((Omits.collect h).mono fun _ hcs => forall_of_forall₂ hcs) fun _ => .pure _

theorem condExpr {condition : StaticTyping.Operand} {P P' : Prop}
    (hcondition : O.Operand condition P) {thenBranch : CheckM Typed.Block}
    (hthen : O.Omits thenBranch fun _ => P') {S : γ → Prop} {c : Option γ}
    {otherwise : Option (CheckM Typed.Expr)}
    (helse : Option.Rel (fun c x => O.Omits x fun _ => S c) c otherwise) (span : Span) :
    O.Omits (CheckM.condExpr condition thenBranch otherwise span)
      fun _ => P ∧ P' ∧ ∀ x ∈ c, S x := by
  apply (hcondition.confirm _).bind
  intro condition
  apply hthen.bind
  intro thenBranch
  have hbranch : O.Omits (elseBranch thenBranch.ty otherwise) fun _ => ∀ x ∈ c, S x := by
    cases helse with
    | none => exact .pure fun x hx => absurd hx (Option.not_mem_none x)
    | @some x _ hx =>
        have hall : S x → ∀ y ∈ some x, S y := fun hx y hy => by
          cases hy
          exact hx
        exact thenKeeps (hx.mono fun _ => hall) fun branch =>
          (Closure.Has.require _ _ _).bind fun _ => .pure _
  exact hbranch.bind fun _ => .pure fun hS hP' hP => ⟨hP, hP', hS⟩

/-!
# Statements
-/

theorem optionalConfirm {S : γ → Prop} {c : Option γ} {o : Option StaticTyping.Operand}
    (h : Option.Rel (fun c o => O.Operand o (S c)) c o) (ty : Ty) :
    O.Omits (CheckM.optional (o.map (·.confirm ty))) fun _ => ∀ x ∈ c, S x := by
  apply Omits.optional
  cases h with
  | none => exact .none
  | some ho => exact .some (ho.confirm ty)

theorem optionalCheck {S : γ → Prop} {c : Option γ} {o : Option StaticTyping.Operand}
    (h : Option.Rel (fun c o => O.Operand o (S c)) c o) :
    O.Omits (CheckM.optional (o.map (·.check))) fun _ => ∀ x ∈ c, S x := by
  apply Omits.optional
  cases h with
  | none => exact .none
  | some ho => exact .some ho.check

theorem importModule (i : Source.Import) :
    O.Omits (CheckM.importModule i) fun _ => i.package.name ≠ O.package := by
  intro s hs
  refine ⟨O.frame.importModule trivial i s hs, fun target htarget heq => hs.absent ?_⟩
  rcases importModule_eq_ok (Prod.ext htarget rfl) with ⟨m, τ, hload, hsession⟩
  have hgives := O.provides.gives (congrArg Prod.fst hload)
  rw [hload, heq] at hgives
  rw [hsession]
  exact hgives

end Omission

end StaticTyping
