import StaticTyping.Proofs.WellTyped

/-!
# No placeholder is left

While a file is checked, `Ty.unknown` stands for a name that is not looked up yet and `Ty.noValue`
for what gives no value.  Neither is left in what a check gives: not in the types of a typed file,
not in its exports, and not in the modules that packages are compiled to, at whatever depth.
-/

namespace StaticTyping

mutual

def Ty.settled : Ty → Bool
  | .noValue => false
  | .unknown _ => false
  | .list elem => elem.settled
  | .map key value => key.settled && value.settled
  | .tuple items => Ty.allSettled items
  | .named f => f.settled
  | .function sig => sig.settled
  | .classTy c => c.settled
  | .interfaceTy i => i.settled
  | .moduleTy m => m.settled
  | _ => true
termination_by structural t => t

def Ty.allSettled : List Ty → Bool
  | [] => true
  | t :: ts => t.settled && Ty.allSettled ts
termination_by structural ts => ts

def Param.settled : Param → Bool
  | ⟨_, ty, _, default⟩ => ty.settled && Typed.Expr.optionSettled default
termination_by structural p => p

def Param.allSettled : List Param → Bool
  | [] => true
  | p :: ps => p.settled && Param.allSettled ps
termination_by structural ps => ps

def Signature.settled : Signature → Bool
  | ⟨params, ret⟩ => Param.allSettled params && ret.settled
termination_by structural s => s

def NamedFunction.settled : NamedFunction → Bool
  | ⟨_, _, sig⟩ => sig.settled
termination_by structural f => f

def NamedFunction.allSettled : List NamedFunction → Bool
  | [] => true
  | f :: fs => f.settled && NamedFunction.allSettled fs
termination_by structural fs => fs

def InterfaceTy.settled : InterfaceTy → Bool
  | ⟨_, methods, _⟩ => NamedFunction.allSettled methods
termination_by structural i => i

def InterfaceTy.allSettled : List InterfaceTy → Bool
  | [] => true
  | i :: is => i.settled && InterfaceTy.allSettled is
termination_by structural is => is

def ClassTy.settled : ClassTy → Bool
  | ⟨_, params, methods, implements, _⟩ =>
      Param.allSettled params && NamedFunction.allSettled methods && InterfaceTy.allSettled implements
termination_by structural c => c

def ClassTy.allSettled : List ClassTy → Bool
  | [] => true
  | c :: cs => c.settled && ClassTy.allSettled cs
termination_by structural cs => cs

def Variable.settled : Variable → Bool
  | ⟨_, ty⟩ => ty.settled
termination_by structural v => v

def Variable.allSettled : List Variable → Bool
  | [] => true
  | v :: vs => v.settled && Variable.allSettled vs
termination_by structural vs => vs

def ModuleTy.settled : ModuleTy → Bool
  | ⟨_, functions, classes, values⟩ =>
      NamedFunction.allSettled functions && ClassTy.allSettled classes && Variable.allSettled values
termination_by structural m => m

def Typed.Expr.settled : Typed.Expr → Bool
  | ⟨kind, ty, _⟩ => kind.settled && ty.settled
termination_by structural e => e

def Typed.Expr.allSettled : List Typed.Expr → Bool
  | [] => true
  | e :: es => e.settled && Typed.Expr.allSettled es
termination_by structural es => es

def Typed.Expr.optionSettled : Option Typed.Expr → Bool
  | none => true
  | some e => e.settled
termination_by structural e => e

def Typed.Entry.settled : Typed.Entry → Bool
  | ⟨key, value⟩ => key.settled && value.settled
termination_by structural e => e

def Typed.Entry.allSettled : List Typed.Entry → Bool
  | [] => true
  | e :: es => e.settled && Typed.Entry.allSettled es
termination_by structural es => es

def Typed.ExprKind.settled : Typed.ExprKind → Bool
  | .list items => Typed.Expr.allSettled items
  | .map entries => Typed.Entry.allSettled entries
  | .assign _ value => value.settled
  | .increment e => e.settled
  | .decrement e => e.settled
  | .binary left _ right => left.settled && right.settled
  | .logical left _ right => left.settled && right.settled
  | .unary _ e => e.settled
  | .group e => e.settled
  | .is value i => value.settled && i.settled
  | .call callee args => callee.settled && Typed.Expr.allSettled args
  | .get object _ _ => object.settled
  | .set object _ value => object.settled && value.settled
  | .index object index => object.settled && index.settled
  | .slice object lower upper => object.settled && lower.settled && upper.settled
  | .block body => body.settled
  | .cond condition thenBranch otherwise =>
      condition.settled && thenBranch.settled && Typed.Expr.optionSettled otherwise
  | .lambda params ret body => Param.allSettled params && ret.settled && body.settled
  | _ => true
termination_by structural k => k

def Typed.Block.settled : Typed.Block → Bool
  | ⟨stmts, ty, _⟩ => Typed.Stmt.allSettled stmts && ty.settled
termination_by structural b => b

def Typed.Function.settled : Typed.Function → Bool
  | ⟨_, sig, body⟩ => sig.settled && body.settled
termination_by structural f => f

def Typed.Function.allSettled : List Typed.Function → Bool
  | [] => true
  | f :: fs => f.settled && Typed.Function.allSettled fs
termination_by structural fs => fs

def Typed.Stmt.settled : Typed.Stmt → Bool
  | ⟨kind, _⟩ => kind.settled
termination_by structural s => s

def Typed.Stmt.optionSettled : Option Typed.Stmt → Bool
  | none => true
  | some s => s.settled
termination_by structural s => s

def Typed.Stmt.allSettled : List Typed.Stmt → Bool
  | [] => true
  | s :: ss => s.settled && Typed.Stmt.allSettled ss
termination_by structural ss => ss

def Typed.StmtKind.settled : Typed.StmtKind → Bool
  | .defer callee args => callee.settled && Typed.Expr.allSettled args
  | .expr e => e.settled
  | .forLoop init condition increment body =>
      Typed.Stmt.optionSettled init && Typed.Expr.optionSettled condition &&
        Typed.Expr.optionSettled increment && Typed.Stmt.allSettled body
  | .forEach _ iterable body => iterable.settled && Typed.Stmt.allSettled body
  | .whileLoop condition body => condition.settled && Typed.Stmt.allSettled body
  | .function f => f.settled
  | .binding _ _ _ ty init => ty.settled && init.settled
  | .ret value => Typed.Expr.optionSettled value
  | .yield e => e.settled
  | .classDecl _ sig methods => sig.settled && Typed.Function.allSettled methods
  | .interfaceDecl i => i.settled
  | _ => true
termination_by structural k => k

end

/-- Whether no placeholder stands in a typed file. -/
def Typed.File.settled (f : Typed.File) : Bool :=
  Typed.Stmt.allSettled f.stmts

theorem Param.settled_eq (p : Param) :
    p.settled = (p.ty.settled && Typed.Expr.optionSettled p.default) := by
  cases p
  rfl

theorem Signature.settled_eq (sig : Signature) :
    sig.settled = (Param.allSettled sig.params && sig.ret.settled) := by
  cases sig
  rfl

theorem NamedFunction.settled_eq (f : NamedFunction) : f.settled = f.sig.settled := by
  cases f
  rfl

theorem InterfaceTy.settled_eq (i : InterfaceTy) :
    i.settled = NamedFunction.allSettled i.methods := by
  cases i
  rfl

theorem ClassTy.settled_eq (c : ClassTy) :
    c.settled = (Param.allSettled c.params && NamedFunction.allSettled c.methods &&
      InterfaceTy.allSettled c.implements) := by
  cases c
  rfl

theorem Variable.settled_eq (v : Variable) : v.settled = v.ty.settled := by
  cases v
  rfl

theorem ModuleTy.settled_eq (m : ModuleTy) :
    m.settled = (NamedFunction.allSettled m.functions && ClassTy.allSettled m.classes &&
      Variable.allSettled m.values) := by
  cases m
  rfl

theorem Typed.Entry.settled_eq (e : Typed.Entry) :
    e.settled = (e.key.settled && e.value.settled) := by
  cases e
  rfl

theorem Typed.Function.settled_eq (f : Typed.Function) :
    f.settled = (f.sig.settled && f.body.settled) := by
  cases f
  rfl

theorem Typed.Stmt.settled_eq (s : Typed.Stmt) : s.settled = s.kind.settled := by
  cases s
  rfl

theorem all_settled_of_forall_mem {α : Type} {one : α → Bool} {all : List α → Bool}
    (hnil : all [] = true) (hcons : ∀ a as, all (a :: as) = (one a && all as)) {as : List α}
    (h : ∀ a ∈ as, one a = true) : all as = true := by
  induction as with
  | nil => exact hnil
  | cons a as ih =>
      rcases List.forall_mem_cons.mp h with ⟨ha, has⟩
      rw [hcons, ha, ih has]
      rfl

theorem Typed.Expr.allSettled_of {es : List Typed.Expr} (h : ∀ e ∈ es, e.settled = true) :
    Typed.Expr.allSettled es = true :=
  all_settled_of_forall_mem rfl (fun _ _ => rfl) h

theorem NamedFunction.allSettled_of {fs : List NamedFunction}
    (h : ∀ f ∈ fs, f.sig.settled = true) : NamedFunction.allSettled fs = true :=
  all_settled_of_forall_mem rfl (fun _ _ => rfl) fun f hf => f.settled_eq.trans (h f hf)

theorem Param.allSettled_of {ps : List Param} (h : ∀ p ∈ ps, p.settled = true) :
    Param.allSettled ps = true :=
  all_settled_of_forall_mem rfl (fun _ _ => rfl) h

theorem Typed.Stmt.allSettled_of {ss : List Typed.Stmt} (h : ∀ s ∈ ss, s.kind.settled = true) :
    Typed.Stmt.allSettled ss = true :=
  all_settled_of_forall_mem rfl (fun _ _ => rfl) fun s hs => s.settled_eq.trans (h s hs)

theorem Typed.Expr.optionSettled_of {e : Option Typed.Expr}
    (h : ∀ d, e = some d → d.settled = true) : Typed.Expr.optionSettled e = true := by
  cases e with
  | none => rfl
  | some d => exact h d rfl

theorem Typed.Stmt.optionSettled_of {s : Option Typed.Stmt}
    (h : Typed.Stmt.allSettled s.toList = true) : Typed.Stmt.optionSettled s = true := by
  cases s with
  | none => rfl
  | some s => exact (Bool.and_eq_true_iff.mp h).1

theorem Ty.settled_of_isAtom {t : Ty} (h : t.isAtom) : t.settled = true := by
  cases t with
  | int | float | string | bool | char | nil | any | error => rfl
  | _ => cases h

theorem and_settled {a b : Bool} (ha : a = true) (hb : b = true) : (a && b) = true :=
  Bool.and_eq_true_iff.mpr ⟨ha, hb⟩

/-!
# From well-formed types and well-typed trees

The judgements are about one another, so this goes by recursion on derivations.
-/

variable {D : Discipline}

mutual

theorem Ty.WellFormed.settled (hD : D.noValue = false) {t : Ty} (h : t.WellFormed D) :
    t.settled = true :=
  match h with
  | .atom h => Ty.settled_of_isAtom h
  | .noValue h => absurd (hD.symm.trans h) Bool.false_ne_true
  | .list h => h.settled hD
  | .map hkey hvalue => and_settled (hkey.settled hD) (hvalue.settled hD)
  | .tuple h => all_settled_of_forall_mem rfl (fun _ _ => rfl) fun t ht => (h t ht).settled hD
  | .named h => (NamedFunction.settled_eq _).trans (h.settled hD)
  | .function h => h.settled hD
  | .classTy h => h.settled hD
  | .interfaceTy h => h.settled hD
  | .moduleTy hfunctions hclasses hvalues => (ModuleTy.settled_eq _).trans (and_settled
      (and_settled
        (all_settled_of_forall_mem rfl (fun _ _ => rfl) fun f hf => (hfunctions f hf).settled hD)
        (all_settled_of_forall_mem rfl (fun _ _ => rfl) fun c hc => (hclasses c hc).settled hD))
      (all_settled_of_forall_mem rfl (fun _ _ => rfl) fun v hv =>
        v.settled_eq.trans ((hvalues v hv).settled hD)))
termination_by structural h

theorem Param.WellFormed.settled (hD : D.noValue = false) {Γ : Context} {p : Param}
    (h : p.WellFormed D Γ) : p.settled = true :=
  match h with
  | .intro hty hdefault _ => p.settled_eq.trans (and_settled (hty.settled hD)
      (Typed.Expr.optionSettled_of fun d hd => (hdefault d hd).settled hD))
termination_by structural h

theorem Signature.WellFormed.settled (hD : D.noValue = false) {Γ : Context} {sig : Signature}
    (h : sig.WellFormed D Γ) : sig.settled = true :=
  match h with
  | .intro hparams _ hret => sig.settled_eq.trans (and_settled
      (Param.allSettled_of fun p hp => (hparams p hp).settled hD) (hret.settled hD))
termination_by structural h

theorem InterfaceTy.WellFormed.settled (hD : D.noValue = false) {Γ : Context}
    {i : InterfaceTy} (h : i.WellFormed D Γ) : i.settled = true :=
  match h with
  | .intro hmethods => i.settled_eq.trans
      (NamedFunction.allSettled_of fun f hf => (hmethods f hf).settled hD)
termination_by structural h

theorem ClassTy.WellFormed.settled (hD : D.noValue = false) {Γ : Context} {c : ClassTy}
    (h : c.WellFormed D Γ) : c.settled = true :=
  match h with
  | .intro hparams _ hmethods himplements => c.settled_eq.trans (and_settled (and_settled
      (Param.allSettled_of fun p hp => (hparams p hp).settled hD)
      (NamedFunction.allSettled_of fun f hf => (hmethods f hf).settled hD))
      (all_settled_of_forall_mem rfl (fun _ _ => rfl) fun i hi => (himplements i hi).settled hD))
termination_by structural h

theorem Typed.Expr.WellTyped.settled (hD : D.noValue = false) {Γ : Context} {e : Typed.Expr}
    (h : e.WellTyped D Γ) : e.settled = true :=
  match h with
  | .intro hkind hty => and_settled (hkind.settled hD) (hty.settled hD)
termination_by structural h

theorem Typed.Expr.Elsewhere.settled (hD : D.noValue = false) {e : Typed.Expr}
    (h : e.Elsewhere D) : e.settled = true :=
  match h with
  | .intro he => he.settled hD
termination_by structural h

theorem Typed.Expr.Calls.settled (hD : D.noValue = false) {Γ : Context} {callee : Typed.Expr}
    {args : List Typed.Expr} {ty : Ty} (h : callee.Calls D Γ args ty) :
    (callee.settled && Typed.Expr.allSettled args) = true :=
  match h with
  | .intro hcallee _ _ hargs _ _ => and_settled (hcallee.settled hD)
      (Typed.Expr.allSettled_of fun arg harg => (hargs arg harg).settled hD)
termination_by structural h

theorem Typed.ExprKind.HasType.settled (hD : D.noValue = false) {Γ : Context}
    {kind : Typed.ExprKind} {ty : Ty} (h : kind.HasType D Γ ty) : kind.settled = true :=
  match h with
  | .int | .float | .string | .char | .bool | .nil | .var | .this _ => rfl
  | .list hitems _ => Typed.Expr.allSettled_of fun e he => (hitems e he).settled hD
  | .map hkeys hvalues _ _ => all_settled_of_forall_mem rfl (fun _ _ => rfl) fun e he =>
      e.settled_eq.trans (and_settled ((hkeys e he).settled hD) ((hvalues e he).settled hD))
  | .assign hvalue => hvalue.settled hD
  | .increment he _ => he.settled hD
  | .decrement he _ => he.settled hD
  | .binary hleft hright _ => and_settled (hleft.settled hD) (hright.settled hD)
  | .logical hleft hright _ => and_settled (hleft.settled hD) (hright.settled hD)
  | .neg he _ => he.settled hD
  | .not he _ => he.settled hD
  | .group he => he.settled hD
  | .is hvalue hi => and_settled (hvalue.settled hD) (hi.settled hD)
  | .call hcall => hcall.settled hD
  | .get hobject _ => hobject.settled hD
  | .set hobject _ hvalue _ => and_settled (hobject.settled hD) (hvalue.settled hD)
  | .index hobject _ hindex _ => and_settled (hobject.settled hD) (hindex.settled hD)
  | .slice hobject _ hlower hupper _ _ =>
      and_settled (and_settled (hobject.settled hD) (hlower.settled hD)) (hupper.settled hD)
  | .block hbody => hbody.settled hD
  | .cond hcondition _ hthen helse _ =>
      and_settled (and_settled (hcondition.settled hD) (hthen.settled hD))
        (Typed.Expr.optionSettled_of fun e he => (helse e he).settled hD)
  | .lambda hsig hbody _ => and_settled (hsig.settled hD) (hbody.settled hD)
termination_by structural h

theorem Typed.Block.WellTyped.settled (hD : D.noValue = false) {Γ : Context}
    {b : Typed.Block} (h : b.WellTyped D Γ) : b.settled = true :=
  match h with
  | .intro hstmts _ hty => and_settled (hstmts.settled hD) (hty.settled hD)
termination_by structural h

theorem Typed.Function.WellTyped.settled (hD : D.noValue = false) {Γ : Context}
    {f : Typed.Function} (h : f.WellTyped D Γ) : f.settled = true :=
  match h with
  | .intro hsig hbody _ => f.settled_eq.trans (and_settled (hsig.settled hD) (hbody.settled hD))
termination_by structural h

theorem ClassTy.Implemented.settled (hD : D.noValue = false) {Γ : Context} {c : ClassTy}
    {methods : List Typed.Function} (h : c.Implemented D Γ methods) :
    (c.settled && Typed.Function.allSettled methods) = true :=
  match h with
  | .intro hc _ hmethods _ => and_settled (hc.settled hD)
      (all_settled_of_forall_mem rfl (fun _ _ => rfl) fun f hf => (hmethods f hf).settled hD)
termination_by structural h

theorem Typed.StmtKind.WellTyped.settled (hD : D.noValue = false) {Γ Γ' : Context}
    {kind : Typed.StmtKind} (h : kind.WellTyped D Γ Γ') : kind.settled = true :=
  match h with
  | .defer hcall => hcall.settled hD
  | .expr he => he.settled hD
  | .forLoop hinit hcondition _ hincrement hbody =>
      and_settled (and_settled (and_settled (Typed.Stmt.optionSettled_of (hinit.settled hD))
        (Typed.Expr.optionSettled_of fun e he => (hcondition e he).settled hD))
        (Typed.Expr.optionSettled_of fun e he => (hincrement e he).settled hD)) (hbody.settled hD)
  | .forEach hiterable _ hbody => and_settled (hiterable.settled hD) (hbody.settled hD)
  | .whileLoop hcondition _ hbody => and_settled (hcondition.settled hD) (hbody.settled hD)
  | .function _ hf => hf.settled hD
  | .binding hty hinit _ _ => and_settled (hty.settled hD) (hinit.settled hD)
  | .ret hvalue => Typed.Expr.optionSettled_of fun e he => (hvalue e he).settled hD
  | .yield he => he.settled hD
  | .classDecl _ himplemented => himplemented.settled hD
  | .interfaceDecl hi => hi.settled hD
  | .moduleName | .importOne _ | .importMany _ | .comment | .continueLoop | .breakLoop => rfl
termination_by structural h

theorem Typed.Stmt.AllWellTyped.settled (hD : D.noValue = false) {Γ Γ' : Context}
    {ss : List Typed.Stmt} (h : Typed.Stmt.AllWellTyped D Γ ss Γ') :
    Typed.Stmt.allSettled ss = true :=
  match h with
  | .nil => rfl
  | .cons hs hss =>
      and_settled ((Typed.Stmt.settled_eq _).trans (hs.settled hD)) (hss.settled hD)
termination_by structural h

end

/-!
# Files and sessions
-/

theorem Typed.Stmt.Finished.settled (hD : D.noValue = false) {Γ Γ' : Context}
    {t : Typed.Stmt} (h : t.Finished D Γ Γ')
    (hdeclared : t.declKind = .imports ∨ t.declKind = .interfaces ∨ t.declKind = .values →
      t.kind.settled = true) : t.kind.settled = true := by
  cases h with
  | function hf => exact hf.settled hD
  | classDecl himplemented => exact himplemented.settled hD
  | declared hkind => exact hdeclared hkind
  | other _ ht => exact ht.settled hD

theorem Typed.File.WellTyped.settled (hD : D.noValue = false) {Γ : Context} {f : Typed.File}
    (h : f.WellTyped D Γ) : f.settled = true := by
  rcases h with ⟨himports, hinterfaces, _, _, hvalues, hfinished⟩
  refine Typed.Stmt.allSettled_of fun t ht => ?_
  rcases hfinished.exists_of_mem ht with ⟨_, _, hdone⟩
  refine hdone.settled hD fun hkind => ?_
  have hmem : t ∈ Typed.Stmt.ofKind t.declKind f.stmts :=
    List.mem_filter.mpr ⟨ht, decide_eq_true rfl⟩
  rcases hkind with hkind | hkind | hkind <;> rw [hkind] at hmem
  · rcases himports.exists_of_mem hmem with ⟨_, _, hstmt⟩
    exact hstmt.settled hD
  · rcases hinterfaces.exists_of_mem hmem with ⟨_, _, hstmt⟩
    exact hstmt.settled hD
  · rcases hvalues.exists_of_mem hmem with ⟨_, _, hstmt⟩
    exact hstmt.settled hD

/-- What trees are held to so that no placeholder is written: annotations without `noValue`. -/
def Discipline.valued : Discipline :=
  ⟨false, false, []⟩

/-- Whatever is checked in a session, no placeholder is left in a typed file, in its exports, or
in a compiled package. -/
theorem Session.no_placeholder_left (settings : Settings) (packages : Resolver)
    (files : List Source.File) (hpackages : packages.Meets Discipline.valued.condition)
    (hfiles : ∀ f ∈ files, f.meets Discipline.valued.condition) :
    (∀ (file : Source.File) (typed : Typed.File), file.meets Discipline.valued.condition →
      (check settings packages file (after settings packages files)).1 = .ok typed →
      typed.settled ∧ typed.exports.settled) ∧
    ∀ (package : String) (m : ModuleTy),
      (after settings packages files).compiled.get? package = some m → m.settled := by
  refine ⟨fun file typed hfile hchecked => ?_, fun package m hm => ?_⟩
  · have htyped := check_sound settings hpackages hfiles hfile hchecked
    exact ⟨htyped.settled rfl, htyped.exports.settled rfl⟩
  · exact ((after_wellFormed settings hpackages hfiles).compiled hm).settled rfl

theorem Session.no_placeholder_left_sums :
    ∃ typed m, (check {} Sample.sums Sample.sumFile (after {} Sample.sums [Sample.sumFile])).1 =
        .ok typed ∧ typed.settled ∧ typed.exports.settled ∧
      (after {} Sample.sums [Sample.sumFile]).compiled.get? "sums" = some m ∧ m.settled :=
  have h := no_placeholder_left {} Sample.sums [Sample.sumFile]
    (PackageIndex.meets_resolver rfl) (List.forall_mem_singleton.mpr rfl)
  ⟨_, _, rfl, (h.1 Sample.sumFile _ rfl rfl).1, (h.1 Sample.sumFile _ rfl rfl).2, rfl,
    h.2 "sums" _ rfl⟩

end StaticTyping
