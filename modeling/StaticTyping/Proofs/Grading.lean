import StaticTyping.Proofs.Frame

/-!
# Checks with a record

Some things that are said of checks come with a record, such as the keywords in a tree.  The record
of a check is put together from those of its parts, in the order in which they are checked.  A
grading is such a property of checks; this module goes through the rules for forms that leave the
enclosing constructs as they are.
-/

namespace StaticTyping

open CheckM

variable {κ α β γ δ : Type}

/-- The records of the members of a list, one after another. -/
inductive Adds (R : List κ → α → Prop) : List κ → List α → Prop where
  | nil : Adds R [] []
  | cons {ks ls a as} : R ks a → Adds R ls as → Adds R (ks ++ ls) (a :: as)

/-- The record of what may be absent. -/
inductive AddsOption (R : List κ → α → Prop) : List κ → Option α → Prop where
  | none : AddsOption R [] none
  | some {ks a} : R ks a → AddsOption R ks (some a)

namespace Adds

variable {R : List κ → α → Prop} {S : List κ → β → Prop} {ks : List κ}

theorem map {as : List α} {f : α → β} (h : Adds R ks as) (hf : ∀ {ks a}, R ks a → S ks (f a)) :
    Adds S ks (as.map f) := by
  induction h with
  | nil => exact .nil
  | cons ha _ ih => exact .cons (hf ha) ih

theorem zipWith {as : List α} {f : γ → α → β} (h : Adds R ks as)
    (hf : ∀ {ks a} c, R ks a → S ks (f c a)) (cs : List γ) (hlength : cs.length ≤ as.length) :
    ∃ ls rs, ks = ls ++ rs ∧ Adds S ls (List.zipWith f cs as) ∧ Adds R rs (as.drop cs.length) := by
  induction h generalizing cs with
  | nil =>
      cases List.length_eq_zero_iff.mp (Nat.le_zero.mp hlength)
      exact ⟨[], [], rfl, .nil, .nil⟩
  | @cons ks ls a as ha has ih =>
      cases cs with
      | nil => exact ⟨[], ks ++ ls, rfl, .nil, .cons ha has⟩
      | cons c cs =>
          rcases ih cs (Nat.le_of_succ_le_succ hlength) with ⟨ls', rs, rfl, hzip, hdrop⟩
          exact ⟨ks ++ ls', rs, (List.append_assoc ks ls' rs).symm, .cons (hf c ha) hzip, hdrop⟩

end Adds

theorem AddsOption.map {R : List κ → α → Prop} {S : List κ → β → Prop} {ks : List κ} {o : Option α}
    {f : α → β} (h : AddsOption R ks o) (hf : ∀ {ks a}, R ks a → S ks (f a)) :
    AddsOption S ks (o.map f) := by
  cases h with
  | none => exact .none
  | some ha => exact .some (hf ha)

def Cause.isMisplaced : Cause → Bool
  | .misplacedBreak | .misplacedContinue | .misplacedYield | .misplacedThis => true
  | _ => false

def CheckM.MayGive (env : Env) (x : CheckM α) (a : α) : Prop :=
  ∃ s t, x env s = (.ok a, t)

theorem CheckM.MayGive.of_bind {env : Env} {x : CheckM α} {f : α → CheckM β} {b : β}
    (h : (x >>= f).MayGive env b) : ∃ a, x.MayGive env a ∧ (f a).MayGive env b := by
  rcases h with ⟨s, t, h⟩
  rcases bind_apply_eq_ok.mp h with ⟨a, s', hx, hf⟩
  exact ⟨a, ⟨s, s', hx⟩, ⟨s', t, hf⟩⟩

/-- A property of checks and their records that follows the order of the checks.  A check that fails
may have any record, unless it is for a keyword. -/
structure Grading (env : Env) (κ : Type) where
  holds : {α : Type} → List κ → CheckM α → Prop
  ofPure : ∀ {α : Type} (a : α), holds [] (pure a)
  ofView : ∀ {α : Type} (f : Env → State → α), holds [] (CheckM.view f)
  ofFail : ∀ {α : Type} {cause : Cause} (line : UInt32) (ks : List κ), cause.isMisplaced = false →
    holds ks (CheckM.fail cause line : CheckM α)
  ofBind : ∀ {α β : Type} {ks ls : List κ} {x : CheckM α} {f : α → CheckM β}, holds ks x →
    (∀ a, x.MayGive env a → holds ls (f a)) → holds (ks ++ ls) (x >>= f)
  ofMapCause : ∀ {α : Type} {ks : List κ} {x : CheckM α} {f : Cause → Cause}, holds ks x →
    (∀ c, f c = c ∨ c.isMisplaced = false ∧ (f c).isMisplaced = false) →
    holds ks (CheckM.mapCause f x)
  ofStandard : ∀ package localName, holds [] (importStandard package localName)

namespace Grading

variable {env : Env} (G : Grading env κ) {ks ls : List κ}

def Records (ks : List κ) (x : CheckM α) : Prop :=
  G.holds ks x

/-!
# Checks in general
-/

namespace Records

variable {G}

theorem pure (a : α) : G.Records [] (pure a) :=
  G.ofPure a

theorem view (f : Env → State → α) : G.Records [] (CheckM.view f) :=
  G.ofView f

theorem fail {cause : Cause} (line : UInt32) (h : cause.isMisplaced = false) :
    G.Records ks (CheckM.fail cause line : CheckM α) :=
  G.ofFail line ks h

theorem bind {x : CheckM α} {f : α → CheckM β} (hx : G.Records ks x)
    (hf : ∀ a, x.MayGive env a → G.Records ls (f a)) : G.Records (ks ++ ls) (x >>= f) :=
  G.ofBind hx hf

theorem seq {x : CheckM α} {f : α → CheckM β} (hx : G.Records ks x)
    (hf : ∀ a, G.Records ls (f a)) : G.Records (ks ++ ls) (x >>= f) :=
  hx.bind fun a _ => hf a

theorem before {x : CheckM α} {f : α → CheckM β} (hx : G.Records [] x)
    (hf : ∀ a, G.Records ks (f a)) : G.Records ks (x >>= f) :=
  hx.seq hf

theorem followed {x : CheckM α} {f : α → CheckM β} (hx : G.Records ks x)
    (hf : ∀ a, G.Records [] (f a)) : G.Records ks (x >>= f) := by
  rw [← List.append_nil ks]
  exact hx.seq hf

theorem map {x : CheckM α} (hx : G.Records ks x) (f : α → β) : G.Records ks (f <$> x) := by
  rw [← bind_pure_comp]
  exact hx.followed fun a => .pure (f a)

theorem require (ok : Bool) {cause : Cause} (line : UInt32) (h : cause.isMisplaced = false) :
    G.Records [] (CheckM.require ok cause line) := by
  unfold CheckM.require
  cases ok with
  | true => exact .pure ()
  | false => exact .fail line h

theorem orFail (a : Option α) {cause : Cause} (line : UInt32) (h : cause.isMisplaced = false) :
    G.Records [] (CheckM.orFail a cause line) := by
  cases a with
  | none => exact .fail line h
  | some a => exact .pure a

theorem collect {xs : List (CheckM α)} (h : Adds G.Records ks xs) :
    G.Records ks (CheckM.collect xs) := by
  induction h with
  | nil => exact .pure []
  | cons hx _ ih => exact hx.seq fun a => ih.followed fun as => .pure (a :: as)

theorem optional {x : Option (CheckM α)} (h : AddsOption G.Records ks x) :
    G.Records ks (CheckM.optional x) := by
  cases h with
  | none => exact .pure none
  | some hx => exact hx.followed fun a => .pure (some a)

end Records

/-!
# Names
-/

theorem valueOf (name : String) (line : UInt32) : G.Records [] (CheckM.valueOf name line) :=
  (Records.view _).before fun found => .orFail found line rfl

theorem resolveTy (ty : Ty) (line : UInt32) : G.Records [] (CheckM.resolveTy ty line) := by
  apply (Records.view _).before
  intro r
  cases r with
  | ok ty => exact .pure ty
  | error name => exact .fail line rfl

theorem variableTy (name : Ident) : G.Records [] (CheckM.variableTy name) := by
  apply (G.valueOf name.name name.line).before
  intro found
  apply Records.before (x := deferredTy found name.line)
  · unfold deferredTy
    split
    · exact G.valueOf _ _
    · exact .pure _
  · intro ty
    exact (Records.require _ _ rfl).before fun _ => .pure ty

/-!
# Operands and arguments
-/

/-- An operand with a record, whether it is checked or confirmed. -/
structure Operand (ks : List κ) (o : StaticTyping.Operand) : Prop where
  check : G.Records ks o.check
  confirm : ∀ ty, G.Records ks (o.confirm ty)

variable {G}

theorem operand {e : Source.Expr} {check : CheckM Typed.Expr} (h : G.Records ks check)
    (hadopted : ∀ {ty literal}, adopted? e ty = some literal → ks = []) :
    G.Operand ks (.ofExpr e check) := by
  constructor
  · exact h
  · intro ty
    have hadopt : G.Records ks (adoptOr e check ty) := by
      unfold adoptOr
      split
      next literal hliteral =>
        rw [hadopted hliteral]
        exact .pure literal
      next => exact h
    exact hadopt.followed fun typed => (Records.view _).before fun ok =>
      (Records.require ok _ rfl).before fun _ => .pure typed

theorem confirmAll {os : List StaticTyping.Operand} (h : Adds G.Operand ks os) (ty : Ty) :
    G.Records ks (CheckM.collect (os.map (·.confirm ty))) :=
  .collect (h.map fun ho => ho.confirm ty)

theorem byPosition (callee : String) (sig : Signature) {os : List StaticTyping.Operand}
    (h : Adds G.Operand ks os) (span : Span) :
    G.Records ks (CheckM.byPosition callee sig os span) := by
  unfold CheckM.byPosition CheckM.require
  dsimp only
  split
  next hfits =>
    apply (Records.pure ()).before
    intro _
    cases hrest : sig.restParam? with
    | none =>
        have hcount := Signature.eq_length_fixedParams_of_fits hrest hfits
        rcases h.zipWith (fun (p : Param) ho => ho.confirm p.ty) sig.fixedParams
          (Nat.le_of_eq hcount.symm) with ⟨ls, rs, rfl, hzip, hdrop⟩
        rw [← hcount, List.drop_length] at hdrop
        cases hdrop
        rw [List.append_nil]
        exact (Records.collect hzip).followed fun values => .pure values
    | some p =>
        have hcount := Signature.length_fixedParams_le_of_fits hfits
        rcases h.zipWith (fun (p : Param) ho => ho.confirm p.ty) sig.fixedParams hcount with
          ⟨ls, rs, rfl, hzip, hdrop⟩
        exact (Records.collect hzip).seq fun values =>
          (confirmAll hdrop p.ty).followed fun absorbed => .pure _
  next =>
    rw [← List.append_nil ks]
    exact (Records.fail _ rfl).bind fun _ ⟨_, _, hgives⟩ => nomatch hgives

theorem giveNamed (callee : String) {named : List (Ident × StaticTyping.Operand)}
    (h : Adds (fun ks n => G.Operand ks n.2) ks named) (seats : List Seat) :
    G.Records ks (CheckM.giveNamed callee named seats) := by
  induction h generalizing seats with
  | nil => exact .pure seats
  | cons hn _ ih =>
      apply (Records.orFail _ _ rfl).before
      intro seat
      apply (Records.require _ _ rfl).before
      intro _
      exact (hn.confirm _).seq fun value => ih _

theorem seated (callee : String) (span : Span) (seat : Seat) :
    G.Records [] (CheckM.seated callee span seat) := by
  unfold CheckM.seated CheckM.omitted
  split
  · exact .pure _
  · split
    · exact .pure _
    · split
      · exact .pure _
      · exact .fail _ rfl

theorem byName (callee : String) (sig : Signature) {named : List (Ident × StaticTyping.Operand)}
    (h : Adds (fun ks n => G.Operand ks n.2) ks named) (span : Span) :
    G.Records ks (CheckM.byName callee sig named span) := by
  apply (giveNamed callee h _).followed
  intro seats
  induction seats with
  | nil => exact .pure []
  | cons seat seats ih =>
      exact (seated callee span seat).before fun value => ih.followed fun values => .pure _

theorem namedOnly {args : List Argument} (h : Adds (fun ks a => G.Operand ks a.value) ks args)
    (hnamed : args.all (·.name.isSome)) :
    Adds (fun ks n => G.Operand ks n.2) ks (CheckM.namedOnly args) := by
  induction h with
  | nil => exact .nil
  | cons ha _ ih =>
      simp only [List.all_cons, Bool.and_eq_true] at hnamed
      rcases Option.isSome_iff_exists.mp hnamed.1 with ⟨name, hname⟩
      rw [CheckM.namedOnly, List.filterMap_cons, hname]
      exact .cons ha (ih hnamed.2)

theorem arrange (callee : String) (sig : Signature) {args : List Argument}
    (h : Adds (fun ks a => G.Operand ks a.value) ks args) (span : Span) :
    G.Records ks (CheckM.arrange callee sig args span) := by
  unfold CheckM.arrange
  split
  next hempty =>
    cases List.isEmpty_iff.mp hempty
    cases h
    exact byName callee sig .nil span
  next =>
    split
    next => exact byPosition callee sig (h.map fun ha => ha) span
    next =>
      split
      next hnamed => exact byName callee sig (namedOnly h hnamed) span
      next => exact .fail _ rfl

/-!
# Members and calls
-/

theorem valueMember (object : Typed.Expr) (name : Ident) :
    G.Records [] (CheckM.valueMember object name) := by
  unfold CheckM.valueMember
  split
  · exact (Records.view _).before fun c => (Records.orFail _ _ rfl).before fun ty => .pure _
  · exact (Records.view _).before fun i => (Records.orFail _ _ rfl).before fun f => .pure _
  · exact (Records.orFail _ _ rfl).before fun ty => .pure _
  · split
    · apply Records.before (G.ofStandard _ _)
      intro _
      exact (Records.view _).before fun scope => (Records.orFail _ _ rfl).before fun ty => .pure _
    · exact .fail _ rfl

theorem member {e : Source.Expr} {check : CheckM Typed.Expr} (h : G.Records ks check)
    (hvar : ∀ {var span}, e = ⟨.var var, span⟩ → ks = []) (name : Ident) :
    G.Records ks (CheckM.member e check name) := by
  have hchecked : G.Records ks (check >>= fun object => CheckM.valueMember object name) :=
    h.followed fun object => valueMember object name
  rcases e with ⟨kind, span⟩
  unfold CheckM.member importNamed?
  split
  next var hkind =>
    have hkind : kind = .var var := hkind
    subst hkind
    apply ((Records.view _).before fun scope => Records.pure _).before
    intro found
    cases found with
    | some found =>
        rw [hvar rfl]
        exact (Records.orFail _ _ rfl).before fun ty => .pure _
    | none => exact hchecked
  next => exact hchecked

theorem settableMember {e : Source.Expr} {check : CheckM Typed.Expr} (h : G.Records ks check)
    (hvar : ∀ {var span}, e = ⟨.var var, span⟩ → ks = []) (name : Ident) :
    G.Records ks (CheckM.settableMember e check name) := by
  apply G.ofMapCause (member h hvar name)
  intro cause
  cases cause with
  | notGettable found member => exact .inr ⟨rfl, rfl⟩
  | _ => exact .inl rfl

theorem argumentSignature (callee : String) (sig : Signature) (f : Typed.Expr) (argCount : Nat)
    (line : UInt32) : G.Records [] (CheckM.argumentSignature callee sig f argCount line) := by
  unfold CheckM.argumentSignature
  split
  · unfold dropReceiver
    split
    · exact .fail line rfl
    · exact (Records.require _ line rfl).before fun _ => .pure _
  · exact .pure sig

theorem call (e : Source.Expr) {check : CheckM Typed.Expr} (h : G.Records ks check)
    {args : List Argument} (hargs : Adds (fun ks a => G.Operand ks a.value) ls args) (span : Span) :
    G.Records (ks ++ ls) (CheckM.call e check args span) := by
  apply h.seq
  intro callee
  apply (Records.orFail _ _ rfl).before
  intro sig
  apply (argumentSignature _ sig callee _ _).before
  intro sig
  exact (arrange _ sig hargs span).followed fun values => .pure _

/-!
# Declarations
-/

theorem param (name : Ident) (ty : Ty) (variadic : Bool)
    {default? : Option (Source.Expr × StaticTyping.Operand)}
    (h : AddsOption (fun ks d => G.Operand ks d.2) ks default?) :
    G.Records ks (CheckM.param name ty variadic default?) := by
  apply (G.resolveTy ty _).before
  intro ty
  cases h with
  | none => exact .pure _
  | some hd =>
      apply Records.followed
      · exact (Records.require _ _ rfl).before fun _ => hd.confirm _
      · exact fun value => .pure _

theorem signature {params : List (CheckM Param)} (h : Adds G.Records ks params) (ret : Option Ty)
    (line : UInt32) : G.Records ks (CheckM.signature params ret line) := by
  have hret : G.Records [] (resultTy ret line) := by
    cases ret with
    | some ty => exact G.resolveTy ty line
    | none => exact .pure Ty.nil
  exact (Records.collect h).followed fun params => hret.before fun ret => .pure _

theorem implemented (name : Ident) : G.Records [] (CheckM.implemented name) := by
  apply (G.valueOf name.name name.line).before
  intro ty
  split
  · exact .pure _
  · exact .fail _ rfl

theorem classHead (name : Ident) (visibility : Visibility) {params : List (CheckM Param)}
    (hparams : Adds G.Records ks params) {methods : List (CheckM NamedFunction)}
    (hmethods : Adds G.Records ls methods) (implements : List Ident) :
    G.Records (ks ++ ls) (CheckM.classHead name visibility params methods implements) := by
  have himplements : G.Records [] (CheckM.collect (implements.map CheckM.implemented)) := by
    induction implements with
    | nil => exact .pure []
    | cons name names ih =>
        exact (implemented name).before fun i => ih.followed fun is => .pure (i :: is)
  exact (Records.collect hparams).seq fun params => (Records.collect hmethods).followed
    fun methods => himplements.before fun implements => .pure _

theorem interfaceHead (name : Ident) (visibility : Visibility)
    {methods : List (CheckM NamedFunction)} (h : Adds G.Records ks methods) :
    G.Records ks (CheckM.interfaceHead name visibility methods) :=
  (Records.collect h).followed fun _ => .pure _

theorem bindingValue (name : Ident) (written : Option Ty) {init : Option StaticTyping.Operand}
    (h : AddsOption G.Operand ks init) (span : Span) :
    G.Records ks (CheckM.bindingValue name written init span) := by
  cases written with
  | some ty =>
      apply (G.resolveTy ty _).before
      intro ty
      cases h with
      | none => exact (Records.orFail _ _ rfl).before fun value => .pure _
      | some ho => exact (ho.confirm ty).followed fun value => .pure _
  | none =>
      cases h with
      | none => exact .fail _ rfl
      | some ho => exact ho.check.followed fun value => .pure _

theorem requireInterfaces (sig : ClassTy) (line : UInt32) (interfaces : List InterfaceTy) :
    G.Records [] (CheckM.requireInterfaces sig line interfaces) := by
  induction interfaces with
  | nil => exact .pure ()
  | cons i interfaces ih =>
      unfold CheckM.requireInterfaces
      split
      · exact .fail line rfl
      · exact ih

/-!
# Expressions
-/

theorem listLiteral {items : List StaticTyping.Operand} (h : Adds G.Operand ks items)
    (span : Span) : G.Records ks (CheckM.listLiteral items span) := by
  cases h with
  | nil => exact .pure _
  | cons hfirst hrest =>
      exact hfirst.check.seq fun first => (confirmAll hrest first.ty).followed fun rest => .pure _

/-- An entry of a map, with the record of its key before that of its value. -/
structure Entry (G : Grading env κ) (ks : List κ)
    (entry : StaticTyping.Operand × StaticTyping.Operand) : Prop where
  split : ∃ ls rs, ks = ls ++ rs ∧ G.Operand ls entry.1 ∧ G.Operand rs entry.2

theorem mapEntry {entry : StaticTyping.Operand × StaticTyping.Operand} (h : G.Entry ks entry)
    (keyTy valueTy : Ty) : G.Records ks (CheckM.mapEntry keyTy valueTy entry) := by
  rcases h.split with ⟨ls, rs, rfl, hkey, hvalue⟩
  exact (hkey.confirm _).seq fun key => (hvalue.confirm _).followed fun value => .pure _

theorem mapLiteral {entries : List (StaticTyping.Operand × StaticTyping.Operand)}
    (h : Adds G.Entry ks entries) (span : Span) :
    G.Records ks (CheckM.mapLiteral entries span) := by
  cases h with
  | nil => exact .pure _
  | cons hfirst hrest =>
      rcases hfirst.split with ⟨ls, rs, rfl, hkey, hvalue⟩
      rw [List.append_assoc]
      apply hkey.check.seq
      intro key
      apply hvalue.check.seq
      intro value
      exact (Records.collect (hrest.map fun he => mapEntry he key.ty value.ty)).followed
        fun rest => .pure _

theorem isTest {value : CheckM Typed.Expr} (h : G.Records ks value) (interface : Ident)
    (span : Span) : G.Records ks (CheckM.isTest value interface span) := by
  apply h.followed
  intro value
  apply (G.valueOf interface.name interface.line).before
  intro ty
  split
  · exact .pure _
  · exact .fail _ rfl

theorem elseBranch (thenTy : Ty) {otherwise : Option (CheckM Typed.Expr)}
    (h : AddsOption G.Records ks otherwise) :
    G.Records ks (CheckM.elseBranch thenTy otherwise) := by
  cases h with
  | none => exact .pure none
  | some hx =>
      exact hx.followed fun branch => (Records.require _ _ rfl).before fun _ => .pure _

end Grading
end StaticTyping
