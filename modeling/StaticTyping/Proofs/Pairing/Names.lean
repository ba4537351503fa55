import StaticTyping.Proofs.Pairing.Basic

/-!
# Names, operands and arguments in two runs

A name stands for the same in both runs, written types are resolved to the same, present forms of
classes and interfaces are the same, and arguments are arranged in the same way.
-/

namespace StaticTyping

open CheckM Source

/-!
# Forms of types
-/

namespace Likeness

variable {L : Likeness} {α β : Type}

theorem AlikeOption.bind {strip : Cut → α → α} {strip' : Cut → β → β} {o o' : Option α}
    {f g : α → Option β} (h : L.AlikeOption strip o o')
    (hf : ∀ a a', L.Alike strip a a' → L.AlikeOption strip' (f a) (g a')) :
    L.AlikeOption strip' (o.bind f) (o'.bind g) := by
  rcases h.cases with ⟨rfl, rfl⟩ | ⟨a, a', rfl, rfl, ha⟩
  · rfl
  · exact hf a a' ha

theorem Alike.classTy {c : ClassTy} {t : Ty} (h : L.Alike Ty.strip (.classTy c) t) :
    ∃ c', t = .classTy c' ∧ L.Alike ClassTy.strip c c' := by
  cases t with
  | classTy c' => exact ⟨c', rfl, Ty.classTy.inj h⟩
  | _ => cases h

theorem Alike.interfaceTy {i : InterfaceTy} {t : Ty} (h : L.Alike Ty.strip (.interfaceTy i) t) :
    ∃ i', t = .interfaceTy i' ∧ L.Alike InterfaceTy.strip i i' := by
  cases t with
  | interfaceTy i' => exact ⟨i', rfl, Ty.interfaceTy.inj h⟩
  | _ => cases h

theorem Alike.moduleTy {m : ModuleTy} {t : Ty} (h : L.Alike Ty.strip (.moduleTy m) t) :
    ∃ m', t = .moduleTy m' ∧ L.Alike ModuleTy.strip m m' := by
  cases t with
  | moduleTy m' => exact ⟨m', rfl, Ty.moduleTy.inj h⟩
  | _ => cases h

theorem alike_bodyTy {p p' : Param} (h : L.Alike Param.strip p p') :
    L.Alike Ty.strip p.bodyTy p'.bodyTy :=
  alike_map (fun _ p => p.bodyTy_strip) h

theorem alike_accepts {t t' u u' : Ty} (ht : L.Alike Ty.strip t t') (hu : L.Alike Ty.strip u u') :
    t.accepts u = t'.accepts u' := by
  have hstrip : (t.strip L.cut).accepts (u.strip L.cut) = t.accepts u := t.accepts_strip u
  rw [← hstrip, ht, hu, Ty.accepts_strip]

theorem alike_same {t t' u u' : Ty} (ht : L.Alike Ty.strip t t') (hu : L.Alike Ty.strip u u') :
    t.same u = t'.same u' := by
  have hstrip : (t.strip L.cut).same (u.strip L.cut) = t.same u := t.same_strip u
  rw [← hstrip, ht, hu, Ty.same_strip]

theorem Alike.unknown {name : String} {t : Ty} (h : L.Alike Ty.strip (.unknown name) t) :
    t = .unknown name := by
  cases t with
  | unknown name' => exact congrArg Ty.unknown (Ty.unknown.inj h).symm
  | _ => cases h

end Likeness

def Ty.isPlain : Ty → Bool
  | .classTy _ | .interfaceTy _ | .moduleTy _ | .unknown _ => false
  | _ => true

inductive Likeness.Forms (L : Likeness) : Ty → Ty → Prop where
  | classTy {c c'} : L.Alike ClassTy.strip c c' → Forms L (.classTy c) (.classTy c')
  | interfaceTy {i i'} : L.Alike InterfaceTy.strip i i' →
      Forms L (.interfaceTy i) (.interfaceTy i')
  | moduleTy {m m'} : L.Alike ModuleTy.strip m m' → Forms L (.moduleTy m) (.moduleTy m')
  | unknown {name} : Forms L (.unknown name) (.unknown name)
  | plain {t t'} : L.Alike Ty.strip t t' → t.isPlain → t'.isPlain → Forms L t t'

theorem Likeness.Alike.forms {L : Likeness} {t t' : Ty} (h : L.Alike Ty.strip t t') :
    L.Forms t t' := by
  cases t with
  | classTy c =>
      rcases h.classTy with ⟨c', rfl, hc⟩
      exact .classTy hc
  | interfaceTy i =>
      rcases h.interfaceTy with ⟨i', rfl, hi⟩
      exact .interfaceTy hi
  | moduleTy m =>
      rcases h.moduleTy with ⟨m', rfl, hm⟩
      exact .moduleTy hm
  | unknown name =>
      rcases h.unknown with rfl
      exact .unknown
  | _ =>
      apply Likeness.Forms.plain h rfl
      cases t' with
      | classTy | interfaceTy | moduleTy | unknown => cases h
      | _ => rfl

/-!
# Present forms
-/

def Ty.class? : Ty → Option ClassTy
  | .classTy c => some c
  | _ => none

def Ty.interface? : Ty → Option InterfaceTy
  | .interfaceTy i => some i
  | _ => none

theorem Ty.class?_strip {cut : Cut} (t : Ty) :
    (t.strip cut).class? = t.class?.map (ClassTy.strip cut) := by
  cases t <;> rfl

theorem Ty.interface?_strip {cut : Cut} (t : Ty) :
    (t.strip cut).interface? = t.interface?.map (InterfaceTy.strip cut) := by
  cases t <;> rfl

theorem Ty.eq_of_class? {t : Ty} {c : ClassTy} (h : t.class? = some c) : t = .classTy c := by
  cases t with
  | classTy => exact congrArg Ty.classTy (Option.some.inj h)
  | _ => cases h

theorem Ty.eq_of_interface? {t : Ty} {i : InterfaceTy} (h : t.interface? = some i) :
    t = .interfaceTy i := by
  cases t with
  | interfaceTy => exact congrArg Ty.interfaceTy (Option.some.inj h)
  | _ => cases h

def present {α : Type} (name : α → String) (found : Option α) (a : α) : α :=
  match found with
  | some b => if name b = name a then b else a
  | none => a

theorem Env.currentClass_eq_present (env : Env) (t : SymbolTable) (c : ClassTy) :
    env.currentClass t c =
      present ClassTy.name ((t.lookup? env.space c.name).bind Ty.class?) c := by
  unfold Env.currentClass
  cases t.lookup? env.space c.name with
  | none => rfl
  | some found => cases found <;> rfl

theorem Env.currentInterface_eq_present (env : Env) (t : SymbolTable) (i : InterfaceTy) :
    env.currentInterface t i =
      present InterfaceTy.name ((t.lookup? env.space i.name).bind Ty.interface?) i := by
  unfold Env.currentInterface
  cases t.lookup? env.space i.name with
  | none => rfl
  | some found => cases found <;> rfl

theorem Likeness.Alike.present {L : Likeness} {α : Type} {strip : Cut → α → α}
    {name : α → String} (hname : ∀ cut a, name (strip cut a) = name a) {o o' : Option α}
    (ho : L.AlikeOption strip o o') {a a' : α} (ha : L.Alike strip a a') :
    L.Alike strip (present name o a) (present name o' a') := by
  rcases ho.cases with ⟨rfl, rfl⟩ | ⟨b, b', rfl, rfl, hb⟩
  · exact ha
  · show L.Alike strip (if name b = name a then b else a) (if name b' = name a' then b' else a')
    rw [Likeness.alike_congr hname ha, Likeness.alike_congr hname hb]
    split
    · exact hb
    · exact ha

namespace Pairing

variable {P : Pairing} {σ σ' : Session}

/-!
# Lookups
-/

theorem find? (h : P.rel σ σ') (name : String) :
    P.AlikeOption Ty.strip (P.env.find? σ.symbols name) (P.env'.find? σ'.symbols name) := by
  have hprelude : P.AlikeOption Ty.strip (σ.symbols.lookup? P.env.settings.preludeSpace name)
      (σ'.symbols.lookup? P.env'.settings.preludeSpace name) := P.prelude h name
  unfold Env.find?
  rcases hprelude.cases with ⟨hnone, hnone'⟩ | ⟨t, t', hsome, hsome', ht⟩
  · rw [hnone, hnone']
    exact P.lookup h name
  · rw [hsome, hsome']
    exact congrArg some ht

theorem imported? (h : P.rel σ σ') (name : String) :
    P.AlikeOption Scope.strip (P.env.imported? σ.symbols name) (P.env'.imported? σ'.symbols name) :=
  P.imported h name

theorem value? (h : P.rel σ σ') (name : String) :
    P.AlikeOption Ty.strip (P.env.value? σ.symbols name) (P.env'.value? σ'.symbols name) := by
  unfold Env.value?
  rcases (find? h name).cases with ⟨hnone, hnone'⟩ | ⟨t, t', hsome, hsome', ht⟩
  · rw [hnone, hnone']
    rcases (imported? h name).cases with ⟨hnone, hnone'⟩ | ⟨scope, scope', hsome, hsome', hscope⟩
    · rw [hnone, hnone']
      rfl
    · rw [hsome, hsome']
      show some (Ty.moduleTy ((scope.toModule name).strip P.cut)) =
        some (Ty.moduleTy ((scope'.toModule name).strip P.cut'))
      rw [← Scope.toModule_strip, ← Scope.toModule_strip, hscope]
  · rw [hsome, hsome']
    exact congrArg some ht

theorem nominal? {t t' : Ty} (h : P.Alike Ty.strip t t') :
    P.AlikeOption Ty.strip t.nominal? t'.nominal? :=
  Likeness.alike_option (fun _ t => t.nominal?_strip) h

theorem typeName? (h : P.rel σ σ') (name : String) :
    P.AlikeOption Ty.strip (P.env.typeName? σ.symbols name)
      (P.env'.typeName? σ'.symbols name) := by
  unfold Env.typeName?
  cases splitDot? name with
  | none => exact (find? h name).bind fun _ _ ht => nominal? ht
  | some parts =>
      apply (imported? h parts.1).bind
      intro scope scope' hscope
      have hmember : P.AlikeOption Ty.strip (scope.get? parts.2) (scope'.get? parts.2) := by
        rw [Likeness.AlikeOption, ← Scope.get?_strip, ← Scope.get?_strip, hscope]
      exact hmember.bind fun _ _ ht => nominal? ht

theorem resolve (h : P.rel σ σ') {ty : Ty} (hty : ty.strip P.cut = ty.strip P.cut') :
    (ty.resolve (P.env.typeName? σ.symbols)).map (Ty.strip P.cut) =
      (ty.resolve (P.env'.typeName? σ'.symbols)).map (Ty.strip P.cut') := by
  rw [← Ty.resolve_strip, ← Ty.resolve_strip, hty]
  congr 1
  funext name
  exact typeName? h name

theorem currentClass (h : P.rel σ σ') {c c' : ClassTy} (hc : P.Alike ClassTy.strip c c') :
    P.Alike ClassTy.strip (P.env.currentClass σ.symbols c) (P.env'.currentClass σ'.symbols c') := by
  have hname : c.name = c'.name := Likeness.alike_congr (fun _ c => c.strip_name) hc
  have hfound : P.AlikeOption Ty.strip (σ.symbols.lookup? P.env.space c.name)
      (σ'.symbols.lookup? P.env'.space c.name) := P.lookup h c.name
  rw [Env.currentClass_eq_present, Env.currentClass_eq_present, ← hname]
  apply Likeness.Alike.present (fun _ c => c.strip_name) _ hc
  exact hfound.bind fun t t' ht => Likeness.alike_option (fun _ t => t.class?_strip) ht

theorem currentInterface (h : P.rel σ σ') {i i' : InterfaceTy}
    (hi : P.Alike InterfaceTy.strip i i') :
    P.Alike InterfaceTy.strip (P.env.currentInterface σ.symbols i)
      (P.env'.currentInterface σ'.symbols i') := by
  have hname : i.name = i'.name := Likeness.alike_congr (fun _ i => i.strip_name) hi
  have hfound : P.AlikeOption Ty.strip (σ.symbols.lookup? P.env.space i.name)
      (σ'.symbols.lookup? P.env'.space i.name) := P.lookup h i.name
  rw [Env.currentInterface_eq_present, Env.currentInterface_eq_present, ← hname]
  apply Likeness.Alike.present (fun _ i => i.strip_name) _ hi
  exact hfound.bind fun t t' ht => Likeness.alike_option (fun _ t => t.interface?_strip) ht

theorem accepts_of_not_class {env : Env} {t : SymbolTable} {expected found : Ty}
    (h : found.class? = none) : env.accepts t expected found = expected.accepts found := by
  unfold Env.accepts
  split
  · cases h
  · rfl

theorem accepts_of_not_interface {env : Env} {t : SymbolTable} {expected found : Ty}
    (h : expected.interface? = none) : env.accepts t expected found = expected.accepts found := by
  unfold Env.accepts
  split
  · cases h
  · rfl

theorem accepts (h : P.rel σ σ') {expected expected' found found' : Ty}
    (hexpected : P.Alike Ty.strip expected expected') (hfound : P.Alike Ty.strip found found') :
    P.env.accepts σ.symbols expected found = P.env'.accepts σ'.symbols expected' found' := by
  have hplain := Likeness.alike_accepts hexpected hfound
  have hinterface : P.AlikeOption InterfaceTy.strip expected.interface? expected'.interface? :=
    Likeness.alike_option (fun _ t => t.interface?_strip) hexpected
  have hclass : P.AlikeOption ClassTy.strip found.class? found'.class? :=
    Likeness.alike_option (fun _ t => t.class?_strip) hfound
  rcases hinterface.cases with ⟨hnone, hnone'⟩ | ⟨i, i', hi, hi', hii⟩
  · rw [accepts_of_not_interface hnone, accepts_of_not_interface hnone', hplain]
  · rcases hclass.cases with ⟨hnone, hnone'⟩ | ⟨c, c', hc, hc', hcc⟩
    · rw [accepts_of_not_class hnone, accepts_of_not_class hnone', hplain]
    · rw [Ty.eq_of_interface? hi, Ty.eq_of_interface? hi', Ty.eq_of_class? hc, Ty.eq_of_class? hc']
      have hstrip : ((P.env.currentClass σ.symbols c).strip P.cut).satisfies
          ((P.env.currentInterface σ.symbols i).strip P.cut) =
          (P.env.currentClass σ.symbols c).satisfies (P.env.currentInterface σ.symbols i) :=
        ClassTy.satisfies_strip _ _
      rw [currentClass h hcc, currentInterface h hii, ClassTy.satisfies_strip] at hstrip
      exact hstrip.symm

/-!
# Checks of names
-/

theorem valueOf (name : String) (line : UInt32) :
    P.Pairs (P.Alike Ty.strip) (CheckM.valueOf name line) (CheckM.valueOf name line) := by
  apply (Pairs.view (R := P.AlikeOption Ty.strip) fun s s' hs => value? hs.session name).bind
  intro o o' ho
  exact .orFail line ho fun _ => rfl

theorem resolveTy {ty : Ty} (hty : ty.strip P.cut = ty.strip P.cut') (line : UInt32) :
    P.Pairs (P.Alike Ty.strip) (CheckM.resolveTy ty line) (CheckM.resolveTy ty line) := by
  apply (Pairs.view (R := fun r r' => Except.map (Ty.strip P.cut) r =
    Except.map (Ty.strip P.cut') r') fun s s' hs => resolve hs.session hty).bind
  intro r r' hr
  cases r with
  | ok t =>
      cases r' with
      | ok t' => exact .pure (Except.ok.inj hr)
      | error name => cases hr
  | error name =>
      cases r' with
      | ok t' => cases hr
      | error name' =>
          cases Except.error.inj hr
          exact .fail line fun _ => rfl

theorem deferredTy {t t' : Ty} (h : P.Alike Ty.strip t t') (line : UInt32) :
    P.Pairs (P.Alike Ty.strip) (CheckM.deferredTy t line) (CheckM.deferredTy t' line) := by
  cases h.forms with
  | @unknown name => exact valueOf name line
  | classTy | interfaceTy | moduleTy => exact .pure h
  | plain _ hplain hplain' =>
      have hdeferred : ∀ t : Ty, t.isPlain → CheckM.deferredTy t line = pure t := by
        intro t ht
        cases t with
        | unknown => cases ht
        | _ => rfl
      rw [hdeferred t hplain, hdeferred t' hplain']
      exact .pure h

theorem variableTy (name : Ident) :
    P.Pairs (P.Alike Ty.strip) (CheckM.variableTy name) (CheckM.variableTy name) := by
  apply (valueOf name.name name.line).bind
  intro found found' hfound
  apply (deferredTy hfound name.line).bind
  intro t t' ht
  have hunknown : t.hasUnknown = t'.hasUnknown :=
    Likeness.alike_congr (fun _ t => t.hasUnknown_strip) ht
  exact (Pairs.require name.line (congrArg not hunknown) fun _ => rfl).bind fun _ _ _ => .pure ht

theorem acceptsTy {expected expected' found found' : Ty}
    (hexpected : P.Alike Ty.strip expected expected') (hfound : P.Alike Ty.strip found found') :
    P.Pairs Eq (CheckM.accepts expected found) (CheckM.accepts expected' found') :=
  .view fun _ _ hs => accepts hs.session hexpected hfound

theorem importNamed (name : String) :
    P.Pairs (P.AlikeOption Scope.strip) (CheckM.imported? name) (CheckM.imported? name) :=
  .view fun _ _ hs => imported? hs.session name

/-!
# Operands
-/

/-- Two operands that are checked and confirmed alike. -/
structure Operands (P : Pairing) (o o' : Operand) : Prop where
  check : P.Pairs (P.Alike Typed.Expr.strip) o.check o'.check
  confirm : ∀ {ty ty'}, P.Alike Ty.strip ty ty' →
    P.Pairs (P.Alike Typed.Expr.strip) (o.confirm ty) (o'.confirm ty')

/-- Two arguments of the same name, with operands that are alike. -/
structure Arguments (P : Pairing) (a a' : Argument) : Prop where
  name : a.name = a'.name
  value : P.Operands a.value a'.value

theorem adopted?_strip (e : Source.Expr) (cut : Bool) (cut' : Cut) (t : Ty) :
    CheckM.adopted? (e.strip cut) (t.strip cut') =
      (CheckM.adopted? e t).map (Typed.Expr.strip cut') := by
  rcases e with ⟨kind, span⟩
  cases kind with
  | list items =>
      cases items with
      | nil => cases t <;> rfl
      | cons => rfl
  | map es =>
      cases es with
      | nil => cases t <;> rfl
      | cons e es =>
          rcases e with ⟨_, _⟩
          rfl
  | _ => rfl

theorem adopted? (e : Source.Expr) (cut : Bool) {t t' : Ty} (h : P.Alike Ty.strip t t') :
    P.AlikeOption Typed.Expr.strip (CheckM.adopted? e t) (CheckM.adopted? (e.strip cut) t') := by
  rw [Likeness.AlikeOption, ← adopted?_strip e cut, ← adopted?_strip (e.strip cut) false,
    Source.Expr.strip_false, h]

theorem operand (e : Source.Expr) (cut : Bool) {x x' : CheckM Typed.Expr}
    (h : P.Pairs (P.Alike Typed.Expr.strip) x x') :
    P.Operands (.ofExpr e x) (.ofExpr (e.strip cut) x') := by
  constructor
  · exact h
  · intro ty ty' hty
    -- an empty literal adopts the expected type in both runs or in neither
    have hadopt : P.Pairs (P.Alike Typed.Expr.strip) (CheckM.adoptOr e x ty)
        (CheckM.adoptOr (e.strip cut) x' ty') := by
      unfold CheckM.adoptOr
      rcases (adopted? e cut hty).cases with ⟨hnone, hnone'⟩ | ⟨l, l', hsome, hsome', hl⟩
      · rw [hnone, hnone']
        exact h
      · rw [hsome, hsome']
        exact .pure hl
    have hline : (e.strip cut).line = e.line := by
      rcases e with ⟨_, _⟩
      rfl
    apply hadopt.bind
    intro typed typed' htyped
    have htypes : P.Alike Ty.strip typed.ty typed'.ty :=
      Likeness.alike_map (fun _ e => e.strip_ty) htyped
    apply (acceptsTy hty htypes).bind
    intro ok ok' hok
    cases hok
    rw [hline]
    apply (Pairs.require e.line rfl fun hstrict => ?_).bind fun _ _ _ => .pure htyped
    rw [Likeness.eq_of_alike hstrict hty, Likeness.eq_of_alike hstrict htypes]

end Pairing

/-!
# Arguments
-/

namespace Seat

variable {cut : Cut}

def strip (cut : Cut) (s : Seat) : Seat :=
  ⟨s.param.strip cut, s.value.map (Typed.Expr.strip cut)⟩

theorem ofSignature_strip (sig : Signature) :
    ofSignature (sig.strip cut) = (ofSignature sig).map (strip cut) := by
  unfold ofSignature
  rw [sig.strip_params, List.map_map, List.map_map]
  rfl

theorem find?_strip (name : String) (seats : List Seat) :
    find? name (seats.map (strip cut)) = (find? name seats).map (strip cut) := by
  unfold find?
  rw [List.find?_map]
  congr 2
  funext s
  exact congrArg (· == name) s.param.strip_name

theorem give_strip (name : String) (value : Typed.Expr) (seats : List Seat) :
    give name (value.strip cut) (seats.map (strip cut)) =
      (give name value seats).map (strip cut) := by
  induction seats with
  | nil => rfl
  | cons seat seats ih =>
      have hname : (strip cut seat).param.name = seat.param.name := seat.param.strip_name
      rw [List.map_cons, give, give, hname, ih]
      split <;> rfl

end Seat

namespace Pairing

variable {P : Pairing}

theorem omitted (callee : String) (span : Span) {p p' : Param} (h : P.Alike Param.strip p p') :
    P.Pairs (P.Alike Typed.Expr.strip) (CheckM.omitted callee span p)
      (CheckM.omitted callee span p') := by
  have hdefault : P.AlikeOption (fun cut => Typed.Expr.strip cut.defaults) p.default p'.default :=
    Likeness.alike_option (fun _ p => p.strip_default) h
  have hvariadic : p.variadic = p'.variadic :=
    Likeness.alike_congr (fun _ p => p.strip_variadic) h
  have hname : p.name = p'.name := Likeness.alike_congr (fun _ p => p.strip_name) h
  have hbody : P.Alike Ty.strip p.bodyTy p'.bodyTy :=
    Likeness.alike_bodyTy h
  unfold CheckM.omitted
  rcases hdefault.cases with ⟨hnone, hnone'⟩ | ⟨e, e', hsome, hsome', he⟩
  · rw [hnone, hnone', ← hvariadic, ← hname]
    cases p.variadic with
    | true => exact .pure (congrArg (Typed.Expr.mk (.list []) · span) hbody)
    | false => exact .fail span.line fun _ => rfl
  · rw [hsome, hsome']
    exact .pure (P.filled he)

theorem seated (callee : String) (span : Span) {seat seat' : Seat}
    (h : P.Alike Seat.strip seat seat') :
    P.Pairs (P.Alike Typed.Expr.strip) (CheckM.seated callee span seat)
      (CheckM.seated callee span seat') := by
  have hvalue : P.AlikeOption Typed.Expr.strip seat.value seat'.value := congrArg Seat.value h
  have hparam : P.Alike Param.strip seat.param seat'.param := congrArg Seat.param h
  unfold CheckM.seated
  rcases hvalue.cases with ⟨hnone, hnone'⟩ | ⟨e, e', hsome, hsome', he⟩
  · rw [hnone, hnone']
    exact omitted callee span hparam
  · rw [hsome, hsome']
    exact .pure he

theorem confirmAll {ps ps' : List Param} (hps : List.Forall₂ (P.Alike Param.strip) ps ps')
    {args args' : List Operand} (hargs : List.Forall₂ P.Operands args args') :
    List.Forall₂ (P.Pairs (P.Alike Typed.Expr.strip))
      (List.zipWith (fun p arg => arg.confirm p.ty) ps args)
      (List.zipWith (fun p arg => arg.confirm p.ty) ps' args') := by
  induction hps generalizing args args' with
  | nil => exact .nil
  | cons hp _ ih =>
      cases hargs with
      | nil => exact .nil
      | cons harg hrest =>
          exact .cons (harg.confirm (Likeness.alike_map (fun _ p => p.strip_ty) hp)) (ih hrest)

theorem byPosition (callee : String) {sig sig' : Signature}
    (hsig : P.Alike Signature.strip sig sig') {args args' : List Operand}
    (hargs : List.Forall₂ P.Operands args args') (span : Span) :
    P.Pairs (List.Forall₂ (P.Alike Typed.Expr.strip)) (CheckM.byPosition callee sig args span)
      (CheckM.byPosition callee sig' args' span) := by
  have hfixed : List.Forall₂ (P.Alike Param.strip) sig.fixedParams sig'.fixedParams := by
    apply Likeness.forall₂_of_map
    rw [← Signature.fixedParams_strip, ← Signature.fixedParams_strip, hsig]
  have hcount := hargs.length_eq
  have hfits : sig.fits args.length = sig'.fits args'.length := by
    rw [← hcount]
    exact Likeness.alike_congr (f := fun sig => sig.fits args.length)
      (fun _ sig => sig.fits_strip args.length) hsig
  have hrest : P.AlikeOption Param.strip sig.restParam? sig'.restParam? :=
    Likeness.alike_option (fun _ sig => sig.restParam?_strip) hsig
  unfold CheckM.byPosition
  apply (Pairs.require span.line hfits fun _ => ?_).bind
  · intro _ _ _
    apply (Pairs.collect (confirmAll hfixed hargs)).bind
    intro values values' hvalues
    rcases hrest.cases with ⟨hnone, hnone'⟩ | ⟨p, p', hsome, hsome', hp⟩
    · rw [hnone, hnone']
      exact .pure hvalues
    · rw [hsome, hsome', ← hfixed.length_eq]
      have habsorbed : List.Forall₂ (P.Pairs (P.Alike Typed.Expr.strip))
          ((args.drop sig.fixedParams.length).map (·.confirm p.ty))
          ((args'.drop sig.fixedParams.length).map (·.confirm p'.ty)) := by
        rw [List.forall₂_map_left_iff, List.forall₂_map_right_iff]
        exact (List.forall₂_drop _ hargs).imp fun _ _ harg =>
          harg.confirm (Likeness.alike_map (fun _ p => p.strip_ty) hp)
      apply (Pairs.collect habsorbed).bind
      intro es es' hes
      have hlist : P.Alike Typed.Expr.strip ⟨.list es, p.bodyTy, span⟩
          ⟨.list es', p'.bodyTy, span⟩ := by
        have hbody : P.Alike Ty.strip p.bodyTy p'.bodyTy :=
          Likeness.alike_bodyTy hp
        simp only [Likeness.Alike, Typed.Expr.strip, Typed.ExprKind.strip,
          Typed.Expr.stripAll_eq_map, Likeness.alike_list hes, hbody]
      exact .pure (List.rel_append hvalues (.cons hlist .nil))
  · rw [hfixed.length_eq, hcount]

def NamedArgs (P : Pairing) (a a' : Ident × Operand) : Prop :=
  a.1 = a'.1 ∧ P.Operands a.2 a'.2

theorem giveNamed (callee : String) {args args' : List (Ident × Operand)}
    (hargs : List.Forall₂ P.NamedArgs args args') {seats seats' : List Seat}
    (hseats : seats.map (Seat.strip P.cut) = seats'.map (Seat.strip P.cut')) :
    P.Pairs (fun seats seats' => seats.map (Seat.strip P.cut) = seats'.map (Seat.strip P.cut'))
      (CheckM.giveNamed callee args seats) (CheckM.giveNamed callee args' seats') := by
  induction hargs generalizing seats seats' with
  | nil => exact .pure hseats
  | @cons a a' _ _ ha _ ih =>
      rcases a with ⟨name, arg⟩
      rcases a' with ⟨name', arg'⟩
      rcases ha with ⟨rfl, harg⟩
      have hfound : P.AlikeOption Seat.strip (Seat.find? name.name seats)
          (Seat.find? name.name seats') := by
        rw [Likeness.AlikeOption, ← Seat.find?_strip, ← Seat.find?_strip, hseats]
      apply (Pairs.orFail name.line hfound fun _ => rfl).bind
      intro seat seat' hseat
      have hvalue : P.AlikeOption Typed.Expr.strip seat.value seat'.value :=
        congrArg Seat.value hseat
      have hnone : seat.value.isNone = seat'.value.isNone := by
        rw [← Option.isNone_map, hvalue, Option.isNone_map]
      have hparam : P.Alike Param.strip seat.param seat'.param := congrArg Seat.param hseat
      apply (Pairs.require name.line hnone fun _ => rfl).bind
      intro _ _ _
      apply (harg.confirm (Likeness.alike_bodyTy hparam)).bind
      intro value value' hvalue
      apply ih
      rw [← Seat.give_strip, ← Seat.give_strip, hseats, hvalue]

theorem byName (callee : String) {sig sig' : Signature} (hsig : P.Alike Signature.strip sig sig')
    {args args' : List (Ident × Operand)} (hargs : List.Forall₂ P.NamedArgs args args')
    (span : Span) :
    P.Pairs (List.Forall₂ (P.Alike Typed.Expr.strip)) (CheckM.byName callee sig args span)
      (CheckM.byName callee sig' args' span) := by
  have hseats : (Seat.ofSignature sig).map (Seat.strip P.cut) =
      (Seat.ofSignature sig').map (Seat.strip P.cut') := by
    rw [← Seat.ofSignature_strip, ← Seat.ofSignature_strip, hsig]
  apply (giveNamed callee hargs hseats).bind
  intro seats seats' hseats
  apply Pairs.collect
  rw [List.forall₂_map_left_iff, List.forall₂_map_right_iff]
  exact (Likeness.forall₂_of_map hseats).imp fun _ _ hseat => seated callee span hseat

theorem namedOnly {args args' : List Argument} (hargs : List.Forall₂ P.Arguments args args') :
    List.Forall₂ P.NamedArgs (CheckM.namedOnly args) (CheckM.namedOnly args') := by
  induction hargs with
  | nil => exact .nil
  | @cons a a' _ _ ha _ ih =>
      rcases a with ⟨name, arg⟩
      rcases a' with ⟨name', arg'⟩
      rcases ha with ⟨rfl, harg⟩
      cases name with
      | none => exact ih
      | some name => exact .cons ⟨rfl, harg⟩ ih

theorem arrange (callee : String) {sig sig' : Signature} (hsig : P.Alike Signature.strip sig sig')
    {args args' : List Argument} (hargs : List.Forall₂ P.Arguments args args') (span : Span) :
    P.Pairs (List.Forall₂ (P.Alike Typed.Expr.strip)) (CheckM.arrange callee sig args span)
      (CheckM.arrange callee sig' args' span) := by
  have hall : ∀ test : Option Ident → Bool,
      args.all (fun a => test a.name) = args'.all (fun a => test a.name) := by
    intro test
    induction hargs with
    | nil => rfl
    | cons ha _ ih => rw [List.all_cons, List.all_cons, ha.name, ih]
  have hempty : args.isEmpty = args'.isEmpty := by
    cases hargs <;> rfl
  have hvalues : List.Forall₂ P.Operands (args.map (·.value)) (args'.map (·.value)) := by
    rw [List.forall₂_map_left_iff, List.forall₂_map_right_iff]
    exact hargs.imp fun _ _ ha => ha.value
  unfold CheckM.arrange
  rw [hempty, hall Option.isNone, hall Option.isSome]
  split
  · exact byName callee hsig .nil span
  · split
    · exact byPosition callee hsig hvalues span
    · split
      · exact byName callee hsig (namedOnly hargs) span
      · exact .fail span.line fun _ => rfl

end Pairing
end StaticTyping
