import StaticTyping.Proofs.Pairing.Names

/-!
# Rules in two runs

If the checks of the parts give the same in both runs, then so does the rule that puts them
together.
-/

namespace StaticTyping

open CheckM Source

namespace Likeness

variable {L : Likeness}

theorem alike_expr {k k' : Typed.ExprKind} {t t' : Ty} (span : Span)
    (hk : L.Alike Typed.ExprKind.strip k k') (ht : L.Alike Ty.strip t t') :
    L.Alike Typed.Expr.strip ⟨k, t, span⟩ ⟨k', t', span⟩ :=
  congrArg₂ (Typed.Expr.mk · · span) hk ht

theorem alike_stmt {k k' : Typed.StmtKind} (span : Span)
    (hk : L.Alike Typed.StmtKind.strip k k') :
    L.Alike Typed.Stmt.strip ⟨k, span⟩ ⟨k', span⟩ :=
  congrArg (Typed.Stmt.mk · span) hk

theorem alike_ty {e e' : Typed.Expr} (h : L.Alike Typed.Expr.strip e e') :
    L.Alike Ty.strip e.ty e'.ty :=
  alike_map (fun _ e => e.strip_ty) h

theorem alike_exprs {es es' : List Typed.Expr}
    (h : List.Forall₂ (L.Alike Typed.Expr.strip) es es') :
    Typed.Expr.stripAll L.cut es = Typed.Expr.stripAll L.cut' es' := by
  rw [Typed.Expr.stripAll_eq_map, Typed.Expr.stripAll_eq_map]
  exact alike_list h

theorem alike_exprOption {o o' : Option Typed.Expr}
    (h : Option.Rel (L.Alike Typed.Expr.strip) o o') :
    Typed.Expr.stripOption L.cut o = Typed.Expr.stripOption L.cut' o' := by
  cases h with
  | none => rfl
  | some he => exact congrArg some he

theorem alike_named {f f' : NamedFunction} (h : L.Alike NamedFunction.strip f f') :
    L.Alike Ty.strip (.named f) (.named f') :=
  congrArg Ty.named h

theorem alike_classTy {c c' : ClassTy} (h : L.Alike ClassTy.strip c c') :
    L.Alike Ty.strip (.classTy c) (.classTy c') :=
  congrArg Ty.classTy h

theorem alike_params {ps ps' : List Param} (h : List.Forall₂ (L.Alike Param.strip) ps ps') :
    Param.stripAll L.cut ps = Param.stripAll L.cut' ps' := by
  rw [Param.stripAll_eq_map, Param.stripAll_eq_map]
  exact alike_list h

theorem alike_methods {fs fs' : List NamedFunction}
    (h : List.Forall₂ (L.Alike NamedFunction.strip) fs fs') :
    NamedFunction.stripAll L.cut fs = NamedFunction.stripAll L.cut' fs' := by
  rw [NamedFunction.stripAll_eq_map, NamedFunction.stripAll_eq_map]
  exact alike_list h

end Likeness

namespace Pairing

variable {P : Pairing}

/-!
# Members and calls
-/

/-- Two members that were found in the same way. -/
structure Members (P : Pairing) (m m' : Member) : Prop where
  object : P.Alike Typed.Expr.strip m.object m'.object
  access : m.access = m'.access
  ty : P.Alike Ty.strip m.ty m'.ty

/-- Two checked calls. -/
structure Calls (P : Pairing) (c c' : Call) : Prop where
  callee : P.Alike Typed.Expr.strip c.callee c'.callee
  args : List.Forall₂ (P.Alike Typed.Expr.strip) c.args c'.args
  ty : P.Alike Ty.strip c.ty c'.ty

theorem memberOf (name : String) {scope scope' : Scope} (h : P.Alike Scope.strip scope scope') :
    P.AlikeOption Ty.strip (scope.get? name) (scope'.get? name) := by
  rw [Likeness.AlikeOption, ← Scope.get?_strip, ← Scope.get?_strip, h]

theorem importMember (var name : Ident) {scope scope' : Scope}
    (h : P.Alike Scope.strip scope scope') :
    P.Pairs P.Members (CheckM.importMember var name scope)
      (CheckM.importMember var name scope') := by
  apply (Pairs.orFail name.line (memberOf name.name h) fun _ => rfl).bind
  intro ty ty' hty
  apply Pairs.pure
  constructor
  · apply Likeness.alike_expr var.span rfl
    show Ty.moduleTy ((scope.toModule var.name).strip P.cut) =
      Ty.moduleTy ((scope'.toModule var.name).strip P.cut')
    rw [← Scope.toModule_strip, ← Scope.toModule_strip, h]
  · rfl
  · exact hty

theorem importStandard {ty : Ty} {package localName : String}
    (h : ty.builtinPackage? = some (package, localName)) :
    P.Pairs (fun _ _ => True) (CheckM.importStandard package localName)
      (CheckM.importStandard package localName) := by
  intro s s' hs
  rw [importStandard_apply, importStandard_apply]
  exact .ok trivial
    ⟨⟨P.standard h hs.session, hs.classes, hs.exprs, hs.stmts, hs.report⟩, rfl, rfl⟩

theorem valueMember_of_plain {object : Typed.Expr} (name : Ident) (h : object.ty.isPlain) :
    CheckM.valueMember object name =
      match object.ty.builtinPackage? with
      | some (package, localName) => do
          CheckM.importStandard package localName
          let scope ← CheckM.imported? localName
          let ty ← orFail (scope.bind (·.get? name.name)) (missing object name) name.line
          pure ⟨object, .builtin localName, ty⟩
      | none => fail (.notGettable object.ty name.name) name.line := by
  unfold CheckM.valueMember
  split
  next hc =>
    rw [hc] at h
    cases h
  next hi =>
    rw [hi] at h
    cases h
  next hm =>
    rw [hm] at h
    cases h
  next => rfl

theorem valueMember (name : Ident) {object object' : Typed.Expr}
    (h : P.Alike Typed.Expr.strip object object') :
    P.Pairs P.Members (CheckM.valueMember object name) (CheckM.valueMember object' name) := by
  have hty := Likeness.alike_ty h
  have hmissing : P.strict → missing object name = missing object' name := by
    intro hstrict
    unfold missing
    rw [Likeness.eq_of_alike hstrict hty]
  generalize ht : object.ty = t at hty
  generalize ht' : object'.ty = t' at hty
  cases hty.forms with
  | @classTy c c' hc =>
      unfold CheckM.valueMember
      rw [ht, ht']
      apply (Pairs.view (R := P.Alike ClassTy.strip) fun s s' hs => currentClass hs.session hc).bind
      intro c c' hc
      have hmember : P.AlikeOption Ty.strip (c.member? name.name) (c'.member? name.name) :=
        Likeness.alike_option (f := fun c => ClassTy.member? c name.name)
          (fun cut c => @ClassTy.member?_strip cut c name.name) hc
      apply (Pairs.orFail name.line hmember hmissing).bind
      intro ty ty' hty
      exact .pure ⟨h, rfl, hty⟩
  | @interfaceTy i i' hi =>
      unfold CheckM.valueMember
      rw [ht, ht']
      apply (Pairs.view (R := P.Alike InterfaceTy.strip) fun s s' hs =>
        currentInterface hs.session hi).bind
      intro i i' hi
      have hmethod : P.AlikeOption NamedFunction.strip (i.method? name.name)
          (i'.method? name.name) :=
        Likeness.alike_option (f := fun i => InterfaceTy.method? i name.name)
          (fun cut i => @InterfaceTy.method?_strip cut i name.name) hi
      apply (Pairs.orFail name.line hmethod hmissing).bind
      intro f f' hf
      exact .pure ⟨h, rfl, congrArg Ty.named hf⟩
  | @moduleTy m m' hm =>
      unfold CheckM.valueMember
      rw [ht, ht']
      have hmember : P.AlikeOption Ty.strip (m.member? name.name) (m'.member? name.name) :=
        Likeness.alike_option (f := fun m => ModuleTy.member? m name.name)
          (fun cut m => @ModuleTy.member?_strip cut m name.name) hm
      have hname : m.name = m'.name := Likeness.alike_congr (fun _ m => m.strip_name) hm
      apply (Pairs.orFail name.line hmember hmissing).bind
      intro ty ty' hty
      exact .pure ⟨h, congrArg Access.member hname, hty⟩
  | @unknown other =>
      unfold CheckM.valueMember
      rw [ht, ht']
      exact .fail name.line fun _ => rfl
  -- neither a class, an interface nor a module: the members come from a standard package
  | plain hty hplain hplain' =>
      rw [valueMember_of_plain name (ht ▸ hplain), valueMember_of_plain name (ht' ▸ hplain'), ht,
        ht', ← Likeness.alike_congr (fun _ t => t.builtinPackage?_strip) hty]
      cases hpackage : t.builtinPackage? with
      | none =>
          apply Pairs.fail
          intro hstrict
          rw [Likeness.eq_of_alike hstrict hty]
      | some target =>
          apply (importStandard hpackage).bind
          intro _ _ _
          apply (importNamed target.2).bind
          intro scope scope' hscope
          have hmember : P.AlikeOption Ty.strip (scope.bind (·.get? name.name))
              (scope'.bind (·.get? name.name)) :=
            hscope.bind fun _ _ hscope => memberOf name.name hscope
          apply (Pairs.orFail name.line hmember hmissing).bind
          intro ty ty' hty
          exact .pure ⟨h, rfl, hty⟩

def stripImport (cut : Cut) (found : Ident × Scope) : Ident × Scope :=
  (found.1, Scope.strip cut found.2)

theorem importNamed? (e : Source.Expr) (cut : Bool) :
    P.Pairs (P.AlikeOption stripImport) (CheckM.importNamed? e)
      (CheckM.importNamed? (e.strip cut)) := by
  rcases e with ⟨kind, span⟩
  cases kind with
  | var name =>
      apply (importNamed name.name).bind
      intro scope scope' hscope
      apply Pairs.pure
      rcases Likeness.AlikeOption.cases hscope with ⟨rfl, rfl⟩ | ⟨found, found', rfl, rfl, hfound⟩
      · rfl
      · exact congrArg (fun scope => some (name, scope)) hfound
  | _ => exact .pure rfl

theorem member (e : Source.Expr) (cut : Bool) {x x' : CheckM Typed.Expr}
    (h : P.Pairs (P.Alike Typed.Expr.strip) x x') (name : Ident) :
    P.Pairs P.Members (CheckM.member e x name) (CheckM.member (e.strip cut) x' name) := by
  apply (importNamed? e cut).bind
  intro found found' hfound
  rcases Likeness.AlikeOption.cases hfound with
    ⟨rfl, rfl⟩ | ⟨⟨var, scope⟩, ⟨var', scope'⟩, rfl, rfl, hf⟩
  · exact h.bind fun _ _ he => valueMember name he
  · cases congrArg Prod.fst hf
    exact importMember var name (congrArg Prod.snd hf)

theorem settableMember (e : Source.Expr) (cut : Bool) {x x' : CheckM Typed.Expr}
    (h : P.Pairs (P.Alike Typed.Expr.strip) x x') (name : Ident) :
    P.Pairs P.Members (CheckM.settableMember e x name)
      (CheckM.settableMember (e.strip cut) x' name) :=
  (member e cut h name).mapCause _

theorem calleeName (e : Source.Expr) (cut : Bool) :
    CheckM.calleeName (e.strip cut) = CheckM.calleeName e := by
  rcases e with ⟨kind, span⟩
  cases kind <;> rfl

theorem receiver?_strip (cut : Cut) (callee : Typed.Expr) :
    CheckM.receiver? (callee.strip cut) = (CheckM.receiver? callee).map (Typed.Expr.strip cut) := by
  rcases callee with ⟨kind, ty, span⟩
  cases kind with
  | get object name access => cases access <;> rfl
  | _ => rfl

theorem dropReceiver (callee : String) {sig sig' : Signature}
    (hsig : P.Alike Signature.strip sig sig') {object object' : Typed.Expr}
    (hobject : P.Alike Typed.Expr.strip object object') (count : Nat) (line : UInt32) :
    P.Pairs (P.Alike Signature.strip) (CheckM.dropReceiver callee sig object count line)
      (CheckM.dropReceiver callee sig' object' count line) := by
  rcases sig with ⟨ps, ret⟩
  rcases sig' with ⟨ps', ret'⟩
  have hty := Likeness.alike_ty hobject
  have hret : P.Alike Ty.strip ret ret' := congrArg Signature.ret hsig
  have hps : Param.stripAll P.cut ps = Param.stripAll P.cut' ps' := congrArg Signature.params hsig
  cases ps with
  | nil =>
      cases ps' with
      | nil => exact .fail line fun _ => rfl
      | cons => cases hps
  | cons p ps =>
      cases ps' with
      | nil => cases hps
      | cons p' ps' =>
          rw [Param.stripAll, Param.stripAll] at hps
          injection hps with hp hps
          have hbody : P.Alike Ty.strip p.bodyTy p'.bodyTy :=
            Likeness.alike_bodyTy hp
          apply (Pairs.require line (Likeness.alike_accepts hbody hty) fun hstrict => ?_).bind
          · intro _ _ _
            exact .pure (congrArg₂ Signature.mk hps hret)
          · rw [Likeness.eq_of_alike hstrict hbody, Likeness.eq_of_alike hstrict hty]

theorem argumentSignature (callee : String) {sig sig' : Signature}
    (hsig : P.Alike Signature.strip sig sig') {f f' : Typed.Expr}
    (hf : P.Alike Typed.Expr.strip f f') (count : Nat) (line : UInt32) :
    P.Pairs (P.Alike Signature.strip) (CheckM.argumentSignature callee sig f count line)
      (CheckM.argumentSignature callee sig' f' count line) := by
  have hreceiver : P.AlikeOption Typed.Expr.strip (CheckM.receiver? f) (CheckM.receiver? f') :=
    Likeness.alike_option receiver?_strip hf
  unfold CheckM.argumentSignature
  rcases hreceiver.cases with ⟨hnone, hnone'⟩ | ⟨object, object', hsome, hsome', hobject⟩
  · rw [hnone, hnone']
    exact .pure hsig
  · rw [hsome, hsome']
    exact dropReceiver callee hsig hobject count line

theorem call (e : Source.Expr) (cut : Bool) {x x' : CheckM Typed.Expr}
    (h : P.Pairs (P.Alike Typed.Expr.strip) x x') {args args' : List Argument}
    (hargs : List.Forall₂ P.Arguments args args') (span : Span) :
    P.Pairs P.Calls (CheckM.call e x args span) (CheckM.call (e.strip cut) x' args' span) := by
  unfold CheckM.call
  rw [calleeName, ← hargs.length_eq]
  apply h.bind
  intro callee callee' hcallee
  have hsig : P.AlikeOption Signature.strip callee.ty.callSignature? callee'.ty.callSignature? :=
    Likeness.alike_option (fun _ t => t.callSignature?_strip) (Likeness.alike_ty hcallee)
  apply (Pairs.orFail span.line hsig fun hstrict => ?_).bind
  · intro sig sig' hsig
    apply (argumentSignature (CheckM.calleeName e) hsig hcallee args.length span.line).bind
    intro sig sig' hsig
    have hret : P.Alike Ty.strip sig.ret sig'.ret :=
      Likeness.alike_map (fun _ sig => sig.strip_ret) hsig
    apply (arrange (CheckM.calleeName e) hsig hargs span).bind
    intro values values' hvalues
    exact .pure ⟨hcallee, hvalues, hret⟩
  · rw [Likeness.eq_of_alike hstrict (Likeness.alike_ty hcallee)]

/-!
# Declarations
-/

/-- Two default values, as written and as operands. -/
structure Defaults (P : Pairing) (d d' : Source.Expr × Operand) : Prop where
  literal : d.1.isLiteral = d'.1.isLiteral
  confirm : ∀ {t t'}, P.Alike Ty.strip t t' →
    P.Pairs P.AlikeDefault (d.2.confirm t) (d'.2.confirm t')

theorem defaultValue (name : Ident) {t t' : Ty} (ht : P.Alike Ty.strip t t')
    {d d' : Source.Expr × Operand} (hd : P.Defaults d d') :
    P.Pairs P.AlikeDefault (CheckM.defaultValue name t d.1 d.2)
      (CheckM.defaultValue name t' d'.1 d'.2) := by
  apply (Pairs.require name.line hd.literal fun _ => rfl).bind
  intro _ _ _
  exact hd.confirm ht

theorem param (name : Ident) {ty : Ty} (hty : ty.strip P.cut = ty.strip P.cut') (variadic : Bool)
    {d d' : Option (Source.Expr × Operand)} (hd : Option.Rel P.Defaults d d') :
    P.Pairs (P.Alike Param.strip) (CheckM.param name ty variadic d)
      (CheckM.param name ty variadic d') := by
  apply (resolveTy hty name.line).bind
  intro ty ty' hty
  have hparam : P.Alike Param.strip ⟨name.name, ty, variadic, none⟩
      ⟨name.name, ty', variadic, none⟩ := congrArg (Param.mk name.name · variadic none) hty
  cases hd with
  | none => exact .pure hparam
  | @some d d' hd =>
      have hbody := Likeness.alike_bodyTy hparam
      apply (defaultValue name hbody hd).bind
      intro value value' hvalue
      exact .pure (congrArg₂ (fun ty value => Param.mk name.name ty variadic (some value))
        hty hvalue)

theorem resultTy {ret : Option Ty} (h : ∀ ty, ret = some ty → ty.strip P.cut = ty.strip P.cut')
    (line : UInt32) :
    P.Pairs (P.Alike Ty.strip) (CheckM.resultTy ret line) (CheckM.resultTy ret line) := by
  cases ret with
  | none => exact .pure rfl
  | some ty => exact resolveTy (h ty rfl) line

theorem signature {ps ps' : List (CheckM Param)}
    (hps : List.Forall₂ (P.Pairs (P.Alike Param.strip)) ps ps') {ret : Option Ty}
    (hret : ∀ ty, ret = some ty → ty.strip P.cut = ty.strip P.cut') (line : UInt32) :
    P.Pairs (P.Alike Signature.strip) (CheckM.signature ps ret line)
      (CheckM.signature ps' ret line) := by
  apply (Pairs.collect hps).bind
  intro params params' hparams
  apply (resultTy hret line).bind
  intro ret ret' hret
  exact .pure (congrArg₂ Signature.mk (Likeness.alike_params hparams) hret)

theorem byInterface {α β : Type} {R : α → β → Prop} {f : InterfaceTy → CheckM α}
    {f' : InterfaceTy → CheckM β} {x : CheckM α} {x' : CheckM β}
    (hf : ∀ i i', P.Alike InterfaceTy.strip i i' → P.Pairs R (f i) (f' i')) (hx : P.Pairs R x x')
    (t t' : Ty) : P.Alike Ty.strip t t' →
    P.Pairs R
      (match t with
      | .interfaceTy i => f i
      | _ => x)
      (match t' with
      | .interfaceTy i => f' i
      | _ => x') := by
  intro ht
  have hinterface : P.AlikeOption InterfaceTy.strip t.interface? t'.interface? :=
    Likeness.alike_option (fun _ t => t.interface?_strip) ht
  rcases hinterface.cases with ⟨hnone, hnone'⟩ | ⟨i, i', hi, hi', hii⟩
  · split
    · cases hnone
    · split
      · cases hnone'
      · exact hx
  · rw [Ty.eq_of_interface? hi, Ty.eq_of_interface? hi']
    exact hf i i' hii

theorem implemented (name : Ident) :
    P.Pairs (P.Alike InterfaceTy.strip) (CheckM.implemented name) (CheckM.implemented name) := by
  apply (valueOf name.name name.line).bind
  exact byInterface (fun _ _ hi => .pure hi) (.fail name.line fun _ => rfl)

theorem classHead (name : Ident) (visibility : Visibility) {ps ps' : List (CheckM Param)}
    (hps : List.Forall₂ (P.Pairs (P.Alike Param.strip)) ps ps')
    {ms ms' : List (CheckM NamedFunction)}
    (hms : List.Forall₂ (P.Pairs (P.Alike NamedFunction.strip)) ms ms') (implements : List Ident) :
    P.Pairs (P.Alike ClassTy.strip) (CheckM.classHead name visibility ps ms implements)
      (CheckM.classHead name visibility ps' ms' implements) := by
  have himplements : List.Forall₂ (P.Pairs (P.Alike InterfaceTy.strip))
      (implements.map CheckM.implemented) (implements.map CheckM.implemented) := by
    rw [List.forall₂_map_left_iff, List.forall₂_map_right_iff, List.forall₂_same]
    exact fun name _ => implemented name
  apply (Pairs.collect hps).bind
  intro params params' hparams
  apply (Pairs.collect hms).bind
  intro methods methods' hmethods
  apply (Pairs.collect himplements).bind
  intro is is' his
  have hinterfaces : InterfaceTy.stripAll P.cut is = InterfaceTy.stripAll P.cut' is' := by
    rw [InterfaceTy.stripAll_eq_map, InterfaceTy.stripAll_eq_map]
    exact Likeness.alike_list his
  apply Pairs.pure
  show ClassTy.mk _ _ _ _ _ = ClassTy.mk _ _ _ _ _
  rw [Likeness.alike_params hparams, Likeness.alike_methods hmethods, hinterfaces]

theorem interfaceHead (name : Ident) (visibility : Visibility) {ms ms' : List (CheckM NamedFunction)}
    (hms : List.Forall₂ (P.Pairs (P.Alike NamedFunction.strip)) ms ms') :
    P.Pairs (P.Alike InterfaceTy.strip) (CheckM.interfaceHead name visibility ms)
      (CheckM.interfaceHead name visibility ms') := by
  apply (Pairs.collect hms).bind
  intro methods methods' hmethods
  exact .pure (congrArg (InterfaceTy.mk name.name · visibility) (Likeness.alike_methods hmethods))

theorem interfaceBindings {i i' : InterfaceTy} (h : P.Alike InterfaceTy.strip i i') :
    List.Forall₂ (fun b b' => b.1 = b'.1 ∧ P.Alike Ty.strip b.2 b'.2)
      (CheckM.interfaceBindings i) (CheckM.interfaceBindings i') := by
  have hmethods : List.Forall₂ (P.Alike NamedFunction.strip) i.methods i'.methods := by
    apply Likeness.forall₂_of_map
    rw [← InterfaceTy.strip_methods, ← InterfaceTy.strip_methods, h]
  constructor
  · exact ⟨Likeness.alike_congr (f := InterfaceTy.name) (fun _ i => i.strip_name) h,
      congrArg Ty.interfaceTy h⟩
  · rw [List.forall₂_map_left_iff, List.forall₂_map_right_iff]
    exact hmethods.imp fun _ _ hf =>
      ⟨Likeness.alike_congr (f := NamedFunction.name) (fun _ f => f.strip_name) hf,
        Likeness.alike_named hf⟩

theorem interfaceDecl {x x' : CheckM InterfaceTy} (h : P.Pairs (P.Alike InterfaceTy.strip) x x')
    (span : Span) :
    P.Pairs (P.Alike Typed.Stmt.strip) (CheckM.interfaceDecl x span)
      (CheckM.interfaceDecl x' span) := by
  apply h.bind
  intro i i' hi
  apply (Pairs.declareAll (interfaceBindings hi)).bind
  intro _ _ _
  exact .pure (Likeness.alike_stmt span (congrArg Typed.StmtKind.interfaceDecl hi))

theorem initialValue (name : Ident) {ty ty' : Ty} (hty : P.Alike Ty.strip ty ty')
    {init init' : Option Operand} (hinit : Option.Rel P.Operands init init') (span : Span) :
    P.Pairs (P.Alike Typed.Expr.strip) (CheckM.initialValue name ty init span)
      (CheckM.initialValue name ty' init' span) := by
  cases hinit with
  | none =>
      have hinitial : P.AlikeOption Typed.Expr.strip (ty.initial? span) (ty'.initial? span) :=
        Likeness.alike_option (f := fun ty => Ty.initial? ty span)
          (fun cut ty => @Ty.initial?_strip cut ty span) hty
      apply Pairs.orFail span.line hinitial
      intro hstrict
      rw [Likeness.eq_of_alike hstrict hty]
  | some hvalue => exact hvalue.confirm hty

theorem bindingValue (name : Ident) {written : Option Ty}
    (hwritten : ∀ ty, written = some ty → ty.strip P.cut = ty.strip P.cut')
    {init init' : Option Operand} (hinit : Option.Rel P.Operands init init') (span : Span) :
    P.Pairs (fun r r' => P.Alike Ty.strip r.1 r'.1 ∧ P.Alike Typed.Expr.strip r.2 r'.2)
      (CheckM.bindingValue name written init span)
      (CheckM.bindingValue name written init' span) := by
  cases written with
  | some ty =>
      apply (resolveTy (hwritten ty rfl) span.line).bind
      intro ty ty' hty
      apply (initialValue name hty hinit span).bind
      intro value value' hvalue
      exact .pure ⟨hty, hvalue⟩
  | none =>
      cases hinit with
      | none => exact .fail span.line fun _ => rfl
      | some hvalue =>
          apply hvalue.check.bind
          intro value value' hvalue
          exact .pure ⟨Likeness.alike_ty hvalue, hvalue⟩

theorem binding (name : Ident) (isMutable : Bool) {written : Option Ty}
    (hwritten : ∀ ty, written = some ty → ty.strip P.cut = ty.strip P.cut')
    {init init' : Option Operand} (hinit : Option.Rel P.Operands init init') (span : Span) :
    P.Pairs (P.Alike Typed.Stmt.strip) (CheckM.binding name isMutable written init span)
      (CheckM.binding name isMutable written init' span) := by
  apply Pairs.inStmt
  apply (bindingValue name hwritten hinit span).bind
  intro bound bound' h
  rcases h with ⟨hty, hvalue⟩
  apply (Pairs.declare name.name hty).bind
  intro _ _ _
  exact .pure (Likeness.alike_stmt span
    (congrArg₂ (Typed.StmtKind.binding name isMutable written.isSome) hty hvalue))

theorem functionBody {sig sig' : Signature} (hsig : P.Alike Signature.strip sig sig')
    {body body' : CheckM Typed.Block} (hbody : P.Pairs (P.Alike Typed.Block.strip) body body')
    (line : UInt32) :
    P.Pairs (P.Alike Typed.Block.strip) (CheckM.functionBody sig body line)
      (CheckM.functionBody sig' body' line) := by
  have hparams : List.Forall₂ (P.Alike Param.strip) sig.params sig'.params := by
    apply Likeness.forall₂_of_map
    rw [← Signature.strip_params, ← Signature.strip_params, hsig]
  have hret : P.Alike Ty.strip sig.ret sig'.ret :=
    Likeness.alike_map (fun _ sig => sig.strip_ret) hsig
  have hbindings : List.Forall₂ (fun b b' => b.1 = b'.1 ∧ P.Alike Ty.strip b.2 b'.2)
      (sig.params.map fun p => (p.name, p.bodyTy)) (sig'.params.map fun p => (p.name, p.bodyTy)) := by
    rw [List.forall₂_map_left_iff, List.forall₂_map_right_iff]
    exact hparams.imp fun _ _ hp =>
      ⟨Likeness.alike_congr (f := Param.name) (fun _ p => p.strip_name) hp,
        Likeness.alike_bodyTy hp⟩
  apply Pairs.inStmt
  apply Pairs.inScope
  apply (Pairs.declareAll hbindings).bind
  intro _ _ _
  apply hbody.bind
  intro b b' hb
  have hty : P.Alike Ty.strip b.ty b'.ty := Likeness.alike_map (fun _ b => b.strip_ty) hb
  apply (Pairs.require line (Likeness.alike_accepts hret hty) fun hstrict => ?_).bind
  · exact fun _ _ _ => .pure hb
  · rw [Likeness.eq_of_alike hstrict hret, Likeness.eq_of_alike hstrict hty]

theorem functionOf (name : Ident) {body body' : CheckM Typed.Block}
    (hbody : P.Pairs (P.Alike Typed.Block.strip) body body') (line : UInt32)
    {sig sig' : NamedFunction} (hsig : P.Alike NamedFunction.strip sig sig') :
    P.Pairs (P.Alike Typed.Function.strip) (CheckM.functionOf name body line sig)
      (CheckM.functionOf name body' line sig') := by
  apply (functionBody (Likeness.alike_map (fun _ f => f.strip_sig) hsig) hbody line).bind
  intro b b' hb
  exact .pure (congrArg₂ (Typed.Function.mk name) hsig hb)

theorem functionDecl (name : Ident) {sig sig' : CheckM NamedFunction}
    (hsig : P.Pairs (P.Alike NamedFunction.strip) sig sig') {body body' : CheckM Typed.Block}
    (hbody : P.Pairs (P.Alike Typed.Block.strip) body body') (span : Span) :
    P.Pairs (P.Alike Typed.Stmt.strip) (CheckM.functionDecl name sig body span)
      (CheckM.functionDecl name sig' body' span) := by
  apply hsig.bind
  intro sig sig' hsig
  apply (Pairs.declare name.name (Likeness.alike_named hsig)).bind
  intro _ _ _
  apply (functionOf name hbody span.line hsig).bind
  intro f f' hf
  exact .pure (Likeness.alike_stmt span (congrArg Typed.StmtKind.function hf))

theorem requireInterfaces {c c' : ClassTy} (hc : P.Alike ClassTy.strip c c') (line : UInt32)
    {is is' : List InterfaceTy} (his : List.Forall₂ (P.Alike InterfaceTy.strip) is is') :
    P.Pairs (fun _ _ => True) (CheckM.requireInterfaces c line is)
      (CheckM.requireInterfaces c' line is') := by
  induction his with
  | nil => exact .pure trivial
  | @cons i i' _ _ hi _ ih =>
      have hmissing : P.AlikeOption NamedFunction.strip (c.unprovided? i) (c'.unprovided? i') := by
        have hstrip : (c.strip P.cut).unprovided? (i.strip P.cut) =
            (c.unprovided? i).map (NamedFunction.strip P.cut) := ClassTy.unprovided?_strip _ _
        rw [Likeness.AlikeOption, ← hstrip, hc, hi, ClassTy.unprovided?_strip]
      have hname : c.name = c'.name := Likeness.alike_congr (fun _ c => c.strip_name) hc
      have hname' : i.name = i'.name := Likeness.alike_congr (fun _ i => i.strip_name) hi
      unfold CheckM.requireInterfaces
      rcases hmissing.cases with ⟨hnone, hnone'⟩ | ⟨f, f', hsome, hsome', hf⟩
      · rw [hnone, hnone']
        exact ih
      · rw [hsome, hsome']
        apply Pairs.fail
        intro _
        have hmethod : f.name = f'.name := Likeness.alike_congr (fun _ f => f.strip_name) hf
        rw [hname, hname', hmethod]

def Methods (P : Pairing) (check check' : NamedFunction → CheckM Typed.Function) : Prop :=
  ∀ f f', P.Alike NamedFunction.strip f f' →
    P.Pairs (P.Alike Typed.Function.strip) (check f) (check' f')

theorem applyMethods {checks checks' : List (NamedFunction → CheckM Typed.Function)}
    (h : List.Forall₂ P.Methods checks checks') {fs fs' : List NamedFunction}
    (hfs : List.Forall₂ (P.Alike NamedFunction.strip) fs fs') :
    List.Forall₂ (P.Pairs (P.Alike Typed.Function.strip))
      (List.zipWith (fun check f => check f) checks fs)
      (List.zipWith (fun check f => check f) checks' fs') := by
  induction h generalizing fs fs' with
  | nil => exact .nil
  | cons hcheck _ ih =>
      cases hfs with
      | nil => exact .nil
      | cons hf hfs => exact .cons (hcheck _ _ hf) (ih hfs)

theorem classDecl (name : Ident) {sig sig' : CheckM ClassTy}
    (hsig : P.Pairs (P.Alike ClassTy.strip) sig sig')
    {checks checks' : List (NamedFunction → CheckM Typed.Function)}
    (hchecks : List.Forall₂ P.Methods checks checks') (span : Span) :
    P.Pairs (P.Alike Typed.Stmt.strip) (CheckM.classDecl name sig checks span)
      (CheckM.classDecl name sig' checks' span) := by
  apply hsig.bind
  intro c c' hc
  have hmethods : List.Forall₂ (P.Alike NamedFunction.strip) c.methods c'.methods := by
    apply Likeness.forall₂_of_map
    rw [← ClassTy.strip_methods, ← ClassTy.strip_methods, hc]
  have himplements : List.Forall₂ (P.Alike InterfaceTy.strip) c.implements c'.implements := by
    apply Likeness.forall₂_of_map
    rw [← ClassTy.strip_implements, ← ClassTy.strip_implements, hc]
  apply (Pairs.declare name.name (Likeness.alike_classTy hc)).bind
  intro _ _ _
  apply (((Pairs.collect (applyMethods hchecks hmethods)).inClass hc).inScope.inStmt _).bind
  intro fs fs' hfs
  have hfunctions : Typed.Function.stripAll P.cut fs = Typed.Function.stripAll P.cut' fs' := by
    rw [Typed.Function.stripAll_eq_map, Typed.Function.stripAll_eq_map]
    exact Likeness.alike_list hfs
  apply (requireInterfaces hc span.line himplements).bind
  intro _ _ _
  exact .pure (Likeness.alike_stmt span
    (congrArg₂ (Typed.StmtKind.classDecl name) hc hfunctions))

end Pairing
end StaticTyping
