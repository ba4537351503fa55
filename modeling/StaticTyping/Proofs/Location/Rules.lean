import StaticTyping.Proofs.Grading

/-!
# Checks and the lines of their faults

A rule takes the line of a fault from a name or a span that it is given, and it adds to the report
only what an import brings along.  Where these lines are marked ones, the faults of a check are on
marked lines, and what is known of the report stays true.
-/

namespace StaticTyping

open CheckM

/--
Lines that the faults of a file may be on, and an assertion about its report.  It has to do with
nothing else in the state but the paths asked for, loading a package keeps it, and a fault on a
marked line may be added to the report.
-/
structure Provenance (env : Env) where
  marks : UInt32 → Prop
  holds : State → Prop
  apart : ∀ {s t : State}, t.session.requested = s.session.requested → t.report = s.report →
    holds s → holds t
  load : ∀ package line s, holds s → holds (CheckM.loadPackage package line env s).2
  report : ∀ {s} (e : Fault), marks e.line → holds s →
    holds { s with report := s.report.push (e.diagnose env.file) }

namespace Provenance

variable {env : Env} (P : Provenance env) {α β : Type}

/-- A check that keeps the assertion and has its faults on marked lines. -/
structure Traces (x : CheckM α) : Prop where
  keeps : ∀ s, P.holds s → P.holds (x env s).2
  fault : ∀ s e, (x env s).1 = .error e → P.marks e.line

/-- An operand that is traced, whether it is checked or confirmed. -/
structure Operand (o : StaticTyping.Operand) : Prop where
  check : P.Traces o.check
  confirm : ∀ ty, P.Traces (o.confirm ty)

/-- A traced argument, whose name stands on a marked line if it has one. -/
structure Argument (a : StaticTyping.Argument) : Prop where
  name : ∀ name ∈ a.name, P.marks name.line
  value : P.Operand a.value

/-!
# Checks in general
-/

section General

variable {P}

theorem Traces.apart {x : CheckM α} (hok : ∀ s, ∃ a, (x env s).1 = .ok a)
    (hrequested : ∀ s, (x env s).2.session.requested = s.session.requested)
    (hreport : ∀ s, (x env s).2.report = s.report) : P.Traces x where
  keeps s := P.apart (hrequested s) (hreport s)
  fault s e he := by
    rcases hok s with ⟨a, ha⟩
    rw [ha] at he
    cases he

theorem Traces.pure (a : α) : P.Traces (pure a) :=
  .apart (fun _ => ⟨a, rfl⟩) (fun _ => rfl) fun _ => rfl

theorem Traces.view (f : Env → State → α) : P.Traces (CheckM.view f) :=
  .apart (fun _ => ⟨_, rfl⟩) (fun _ => rfl) fun _ => rfl

theorem Traces.fail (cause : Cause) {line : UInt32} (h : P.marks line) :
    P.Traces (CheckM.fail cause line : CheckM α) where
  keeps _ hs := hs
  fault _ _ he := by
    cases he
    exact h

theorem Traces.bind {x : CheckM α} {f : α → CheckM β} (hx : P.Traces x)
    (hf : ∀ a, x.MayGive env a → P.Traces (f a)) : P.Traces (x >>= f) := by
  constructor
  · intro s hs
    have hfirst := hx.keeps s hs
    rcases hrun : x env s with ⟨r, t⟩
    rw [hrun] at hfirst
    cases r with
    | ok a =>
        rw [bind_apply_of_ok hrun]
        exact (hf a ⟨s, t, hrun⟩).keeps t hfirst
    | error e =>
        rw [bind_apply_of_error hrun]
        exact hfirst
  · intro s e he
    rcases hrun : x env s with ⟨r, t⟩
    cases r with
    | ok a =>
        rw [bind_apply_of_ok hrun] at he
        exact (hf a ⟨s, t, hrun⟩).fault t e he
    | error e' =>
        rw [bind_apply_of_error hrun] at he
        cases he
        exact hx.fault s e (congrArg Prod.fst hrun)

theorem Traces.seq {x : CheckM α} {f : α → CheckM β} (hx : P.Traces x)
    (hf : ∀ a, P.Traces (f a)) : P.Traces (x >>= f) :=
  hx.bind fun a _ => hf a

theorem Traces.map {x : CheckM α} (hx : P.Traces x) (f : α → β) : P.Traces (f <$> x) := by
  rw [← bind_pure_comp]
  exact hx.seq fun a => .pure (f a)

theorem Traces.require (ok : Bool) (cause : Cause) {line : UInt32} (h : P.marks line) :
    P.Traces (CheckM.require ok cause line) := by
  unfold CheckM.require
  cases ok with
  | true => exact .pure ()
  | false => exact .fail cause h

theorem Traces.orFail (a : Option α) (cause : Cause) {line : UInt32} (h : P.marks line) :
    P.Traces (CheckM.orFail a cause line) := by
  cases a with
  | none => exact .fail cause h
  | some a => exact .pure a

theorem Traces.mapCause {x : CheckM α} (hx : P.Traces x) (f : Cause → Cause) :
    P.Traces (CheckM.mapCause f x) := by
  constructor
  · intro s hs
    have h := hx.keeps s hs
    unfold CheckM.mapCause
    rcases hrun : x env s with ⟨r, t⟩
    rw [hrun] at h
    cases r <;> exact h
  · intro s e he
    unfold CheckM.mapCause at he
    rcases hrun : x env s with ⟨r, t⟩
    rw [hrun] at he
    cases r with
    | ok a => cases he
    | error e' =>
        cases he
        exact hx.fault s e' (congrArg Prod.fst hrun)

theorem Traces.collect {xs : List (CheckM α)} (h : ∀ x ∈ xs, P.Traces x) :
    P.Traces (CheckM.collect xs) := by
  induction xs with
  | nil => exact .pure []
  | cons x xs ih =>
      rcases List.forall_mem_cons.mp h with ⟨hx, hxs⟩
      exact hx.seq fun a => (ih hxs).seq fun as => .pure (a :: as)

theorem Traces.optional {x : Option (CheckM α)} (h : ∀ y ∈ x, P.Traces y) :
    P.Traces (CheckM.optional x) := by
  cases x with
  | none => exact .pure none
  | some y => exact (h y rfl).seq fun a => .pure (some a)

theorem Traces.around {enter leave : Env → State → State} {x : CheckM α} (hx : P.Traces x)
    (henter : ∀ s, (enter env s).session.requested = s.session.requested ∧
      (enter env s).report = s.report)
    (hleave : ∀ s, (leave env s).session.requested = s.session.requested ∧
      (leave env s).report = s.report) : P.Traces (CheckM.around enter leave x) := by
  constructor
  · intro s hs
    have hentered := P.apart (henter s).1 (henter s).2 hs
    exact P.apart (hleave _).1 (hleave _).2 (hx.keeps _ hentered)
  · intro s e he
    exact hx.fault _ e he

theorem Traces.inScope {x : CheckM α} (hx : P.Traces x) : P.Traces (CheckM.inScope x) :=
  hx.around (fun _ => ⟨rfl, rfl⟩) fun _ => ⟨rfl, rfl⟩

theorem Traces.inStmt (construct : StmtContext) {x : CheckM α} (hx : P.Traces x) :
    P.Traces (CheckM.inStmt construct x) :=
  hx.around (fun _ => ⟨rfl, rfl⟩) fun _ => ⟨rfl, rfl⟩

theorem Traces.inExpr (construct : ExprContext) {x : CheckM α} (hx : P.Traces x) :
    P.Traces (CheckM.inExpr construct x) :=
  hx.around (fun _ => ⟨rfl, rfl⟩) fun _ => ⟨rfl, rfl⟩

theorem Traces.inClass (construct : ClassTy) {x : CheckM α} (hx : P.Traces x) :
    P.Traces (CheckM.inClass construct x) :=
  hx.around (fun _ => ⟨rfl, rfl⟩) fun _ => ⟨rfl, rfl⟩

theorem Traces.attempt {x : CheckM α} (hx : P.Traces x) : P.Traces (CheckM.attempt x) := by
  constructor
  · intro s hs
    have h := hx.keeps s hs
    unfold CheckM.attempt
    rcases hrun : x env s with ⟨r, t⟩
    rw [hrun] at h
    cases r with
    | ok a => exact h
    | error e => exact P.report e (hx.fault s e (congrArg Prod.fst hrun)) h
  · intro s e he
    unfold CheckM.attempt at he
    rcases hrun : x env s with ⟨r, t⟩
    rw [hrun] at he
    cases r <;> cases he

end General

theorem declare (name : String) (ty : Ty) : P.Traces (CheckM.declare name ty) :=
  .apart (fun _ => ⟨(), rfl⟩) (fun _ => rfl) fun _ => rfl

theorem declareAll (bindings : List (String × Ty)) : P.Traces (CheckM.declareAll bindings) := by
  induction bindings with
  | nil => exact .pure ()
  | cons b rest ih => exact (P.declare b.1 b.2).seq fun _ => ih

theorem importStandard (package localName : String) :
    P.Traces (CheckM.importStandard package localName) := by
  apply Traces.apart
  all_goals
    intro s
    rw [importStandard_apply]
  · exact ⟨(), rfl⟩
  · rfl
  · rfl

/-!
# Names, operands and arguments
-/

theorem valueOf (name : String) {line : UInt32} (h : P.marks line) :
    P.Traces (CheckM.valueOf name line) :=
  (Traces.view _).seq fun _ => .orFail _ _ h

theorem resolveTy (ty : Ty) {line : UInt32} (h : P.marks line) :
    P.Traces (CheckM.resolveTy ty line) := by
  apply (Traces.view _).seq
  intro r
  cases r with
  | ok ty => exact .pure ty
  | error name => exact .fail _ h

theorem variableTy {name : Ident} (h : P.marks name.line) :
    P.Traces (CheckM.variableTy name) := by
  apply (P.valueOf name.name h).seq
  intro found
  have hdeferred : P.Traces (deferredTy found name.line) := by
    unfold deferredTy
    split
    · exact P.valueOf _ h
    · exact .pure _
  exact hdeferred.seq fun ty => (Traces.require _ _ h).seq fun _ => .pure ty

theorem operand {e : Source.Expr} {check : CheckM Typed.Expr} (hline : P.marks e.line)
    (h : P.Traces check) : P.Operand (.ofExpr e check) := by
  refine ⟨h, fun ty => ?_⟩
  have hadopt : P.Traces (adoptOr e check ty) := by
    unfold adoptOr
    cases adopted? e ty with
    | some literal => exact .pure literal
    | none => exact h
  exact hadopt.seq fun typed => (Traces.view _).seq fun ok => (Traces.require ok _ hline).seq
    fun _ => .pure typed

theorem byPosition (callee : String) (sig : Signature) {args : List StaticTyping.Operand}
    (h : ∀ o ∈ args, P.Operand o) {span : Span} (hspan : P.marks span.line) :
    P.Traces (CheckM.byPosition callee sig args span) := by
  have hfixed : ∀ x ∈ List.zipWith (fun p arg => arg.confirm p.ty) sig.fixedParams args,
      P.Traces x := by
    intro x hx
    rcases List.mem_iff_getElem.mp hx with ⟨i, hi, rfl⟩
    rw [List.getElem_zipWith]
    exact (h _ (List.getElem_mem _)).confirm _
  refine (Traces.require _ _ hspan).seq fun _ => (Traces.collect hfixed).seq fun values => ?_
  cases sig.restParam? with
  | none => exact .pure values
  | some p =>
      have habsorbed : ∀ x ∈ (args.drop sig.fixedParams.length).map (·.confirm p.ty),
          P.Traces x := by
        intro x hx
        rcases List.mem_map.mp hx with ⟨o, ho, rfl⟩
        exact (h o (List.mem_of_mem_drop ho)).confirm _
      exact (Traces.collect habsorbed).seq fun absorbed => .pure _

theorem giveNamed (callee : String) {args : List (Ident × StaticTyping.Operand)}
    (h : ∀ a ∈ args, P.marks a.1.line ∧ P.Operand a.2) (seats : List Seat) :
    P.Traces (CheckM.giveNamed callee args seats) := by
  induction args generalizing seats with
  | nil => exact .pure seats
  | cons a rest ih =>
      rcases List.forall_mem_cons.mp h with ⟨⟨hname, hvalue⟩, hrest⟩
      exact (Traces.orFail _ _ hname).seq fun seat => (Traces.require _ _ hname).seq fun _ =>
        (hvalue.confirm _).seq fun value => ih hrest _

theorem seated (callee : String) {span : Span} (hspan : P.marks span.line) (seat : Seat) :
    P.Traces (CheckM.seated callee span seat) := by
  unfold CheckM.seated CheckM.omitted
  cases seat.value with
  | some value => exact .pure value
  | none =>
      cases seat.param.default with
      | some value => exact .pure value
      | none =>
          cases seat.param.variadic with
          | true => exact .pure _
          | false => exact .fail _ hspan

theorem byName (callee : String) (sig : Signature) {args : List (Ident × StaticTyping.Operand)}
    (h : ∀ a ∈ args, P.marks a.1.line ∧ P.Operand a.2) {span : Span}
    (hspan : P.marks span.line) : P.Traces (CheckM.byName callee sig args span) := by
  refine (P.giveNamed callee h _).seq fun seats => Traces.collect fun x hx => ?_
  rcases List.mem_map.mp hx with ⟨seat, _, rfl⟩
  exact P.seated callee hspan seat

theorem arrange (callee : String) (sig : Signature) {args : List StaticTyping.Argument}
    (h : ∀ a ∈ args, P.Argument a) {span : Span} (hspan : P.marks span.line) :
    P.Traces (CheckM.arrange callee sig args span) := by
  have hnamed : ∀ a ∈ namedOnly args, P.marks a.1.line ∧ P.Operand a.2 := by
    intro a ha
    have harg := h _ (mem_namedOnly.mp ha)
    exact ⟨harg.name a.1 rfl, harg.value⟩
  have hvalues : ∀ o ∈ args.map (·.value), P.Operand o := by
    intro o ho
    rcases List.mem_map.mp ho with ⟨arg, harg, rfl⟩
    exact (h arg harg).value
  unfold CheckM.arrange
  split
  · exact P.byName callee sig (fun a ha => absurd ha List.not_mem_nil) hspan
  · split
    · exact P.byPosition callee sig hvalues hspan
    · split
      · exact P.byName callee sig hnamed hspan
      · exact .fail _ hspan

/-!
# Members and calls
-/

theorem valueMember (object : Typed.Expr) {name : Ident} (hname : P.marks name.line) :
    P.Traces (CheckM.valueMember object name) := by
  unfold CheckM.valueMember
  split
  · exact (Traces.view _).seq fun c => (Traces.orFail _ _ hname).seq fun ty => .pure _
  · exact (Traces.view _).seq fun i => (Traces.orFail _ _ hname).seq fun f => .pure _
  · exact (Traces.orFail _ _ hname).seq fun ty => .pure _
  · split
    · exact (P.importStandard _ _).seq fun _ => (Traces.view _).seq fun scope =>
        (Traces.orFail _ _ hname).seq fun ty => .pure _
    · exact .fail _ hname

theorem member (e : Source.Expr) {check : CheckM Typed.Expr} (h : P.Traces check) {name : Ident}
    (hname : P.marks name.line) : P.Traces (CheckM.member e check name) := by
  have hnamed : P.Traces (importNamed? e) := by
    unfold importNamed?
    split
    · exact (Traces.view _).seq fun scope => .pure _
    · exact .pure none
  apply hnamed.seq
  intro found
  cases found with
  | some found => exact (Traces.orFail _ _ hname).seq fun ty => .pure _
  | none => exact h.seq fun object => P.valueMember object hname

theorem argumentSignature (callee : String) (sig : Signature) (f : Typed.Expr) (argCount : Nat)
    {line : UInt32} (hline : P.marks line) :
    P.Traces (CheckM.argumentSignature callee sig f argCount line) := by
  unfold CheckM.argumentSignature
  split
  · unfold dropReceiver
    split
    · exact .fail _ hline
    · exact (Traces.require _ _ hline).seq fun _ => .pure _
  · exact .pure sig

theorem call (e : Source.Expr) {check : CheckM Typed.Expr} (h : P.Traces check)
    {args : List StaticTyping.Argument} (hargs : ∀ a ∈ args, P.Argument a) {span : Span}
    (hspan : P.marks span.line) : P.Traces (CheckM.call e check args span) :=
  h.seq fun callee => (Traces.orFail _ _ hspan).seq fun sig =>
    (P.argumentSignature _ sig callee _ hspan).seq fun sig =>
      (P.arrange _ sig hargs hspan).seq fun _ => .pure _

/-!
# Declarations
-/

theorem param {name : Ident} (hname : P.marks name.line) (ty : Ty) (variadic : Bool)
    {default? : Option (Source.Expr × StaticTyping.Operand)}
    (h : ∀ d ∈ default?, P.Operand d.2) : P.Traces (CheckM.param name ty variadic default?) := by
  apply (P.resolveTy _ hname).seq
  intro ty
  cases default? with
  | none => exact .pure _
  | some d =>
      have hvalue : P.Traces (defaultValue name (Param.bodyTy ⟨name.name, ty, variadic, none⟩)
          d.1 d.2) :=
        (Traces.require _ _ hname).seq fun _ => (h d rfl).confirm _
      exact hvalue.seq fun value => .pure _

theorem signature {params : List (CheckM Param)} (h : ∀ x ∈ params, P.Traces x) (ret : Option Ty)
    {line : UInt32} (hline : P.marks line) : P.Traces (CheckM.signature params ret line) := by
  have hresult : P.Traces (resultTy ret line) := by
    cases ret with
    | none => exact .pure _
    | some ty => exact P.resolveTy ty hline
  exact (Traces.collect h).seq fun _ => hresult.seq fun _ => .pure _

theorem implemented {name : Ident} (h : P.marks name.line) :
    P.Traces (CheckM.implemented name) := by
  apply (P.valueOf _ h).seq
  intro ty
  cases ty with
  | interfaceTy i => exact .pure i
  | _ => exact .fail _ h

theorem classHead (name : Ident) (visibility : Visibility) {params : List (CheckM Param)}
    (hparams : ∀ x ∈ params, P.Traces x) {methods : List (CheckM NamedFunction)}
    (hmethods : ∀ x ∈ methods, P.Traces x) {implements : List Ident}
    (himplements : ∀ i ∈ implements, P.marks i.line) :
    P.Traces (CheckM.classHead name visibility params methods implements) := by
  have hinterfaces : ∀ x ∈ implements.map CheckM.implemented, P.Traces x := by
    intro x hx
    rcases List.mem_map.mp hx with ⟨i, hi, rfl⟩
    exact P.implemented (himplements i hi)
  exact (Traces.collect hparams).seq fun _ => (Traces.collect hmethods).seq fun _ =>
    (Traces.collect hinterfaces).seq fun _ => .pure _

theorem interfaceHead (name : Ident) (visibility : Visibility)
    {methods : List (CheckM NamedFunction)} (h : ∀ x ∈ methods, P.Traces x) :
    P.Traces (CheckM.interfaceHead name visibility methods) :=
  (Traces.collect h).seq fun _ => .pure _

theorem interfaceDecl {sig : CheckM InterfaceTy} (h : P.Traces sig) (span : Span) :
    P.Traces (CheckM.interfaceDecl sig span) :=
  h.seq fun _ => (P.declareAll _).seq fun _ => .pure _

theorem bindingValue (name : Ident) (written : Option Ty) {init : Option StaticTyping.Operand}
    (h : ∀ o ∈ init, P.Operand o) {span : Span} (hspan : P.marks span.line) :
    P.Traces (CheckM.bindingValue name written init span) := by
  cases written with
  | some ty =>
      refine (P.resolveTy _ hspan).seq fun ty => Traces.seq ?_ fun value => .pure _
      cases init with
      | none => exact .orFail _ _ hspan
      | some o => exact (h o rfl).confirm ty
  | none =>
      cases init with
      | none => exact .fail _ hspan
      | some o => exact (h o rfl).check.seq fun value => .pure _

theorem binding (name : Ident) (isMutable : Bool) (written : Option Ty)
    {init : Option StaticTyping.Operand} (h : ∀ o ∈ init, P.Operand o) {span : Span}
    (hspan : P.marks span.line) : P.Traces (CheckM.binding name isMutable written init span) :=
  Traces.inStmt _ ((P.bindingValue name written h hspan).seq fun _ =>
    (P.declare _ _).seq fun _ => .pure _)

theorem functionBody (sig : Signature) {body : CheckM Typed.Block} (h : P.Traces body)
    {line : UInt32} (hline : P.marks line) : P.Traces (CheckM.functionBody sig body line) :=
  Traces.inStmt _ (Traces.inScope ((P.declareAll _).seq fun _ => h.seq fun body =>
    (Traces.require _ _ hline).seq fun _ => .pure body))

theorem functionOf (name : Ident) {body : CheckM Typed.Block} (h : P.Traces body) {line : UInt32}
    (hline : P.marks line) (sig : NamedFunction) :
    P.Traces (CheckM.functionOf name body line sig) :=
  (P.functionBody sig.sig h hline).seq fun _ => .pure _

theorem functionDecl (name : Ident) {sig : CheckM NamedFunction} (hsig : P.Traces sig)
    {body : CheckM Typed.Block} (hbody : P.Traces body) {span : Span}
    (hspan : P.marks span.line) : P.Traces (CheckM.functionDecl name sig body span) :=
  hsig.seq fun sig => (P.declare _ _).seq fun _ =>
    (P.functionOf name hbody hspan sig).seq fun _ => .pure _

theorem requireInterfaces (sig : ClassTy) {line : UInt32} (hline : P.marks line)
    (is : List InterfaceTy) : P.Traces (CheckM.requireInterfaces sig line is) := by
  induction is with
  | nil => exact .pure ()
  | cons i rest ih =>
      unfold CheckM.requireInterfaces
      cases sig.unprovided? i with
      | some f => exact .fail _ hline
      | none => exact ih

theorem classDecl (name : Ident) {sig : CheckM ClassTy} (hsig : P.Traces sig)
    {methods : List (NamedFunction → CheckM Typed.Function)}
    (hmethods : ∀ m ∈ methods, ∀ f, P.Traces (m f)) {span : Span} (hspan : P.marks span.line) :
    P.Traces (CheckM.classDecl name sig methods span) := by
  have hbodies : ∀ sigs : List NamedFunction,
      P.Traces (collect (List.zipWith (fun check f => check f) methods sigs)) := by
    refine fun sigs => .collect fun x hx => ?_
    rcases List.mem_iff_getElem.mp hx with ⟨i, hi, rfl⟩
    rw [List.getElem_zipWith]
    exact hmethods _ (List.getElem_mem _) _
  exact hsig.seq fun sig => (P.declare _ _).seq fun _ => Traces.seq
    (Traces.inStmt _ (Traces.inScope (Traces.inClass sig (hbodies _)))) fun _ =>
    (P.requireInterfaces sig hspan _).seq fun _ => .pure _

/-!
# Expressions
-/

theorem listLiteral {items : List StaticTyping.Operand} (h : ∀ o ∈ items, P.Operand o)
    (span : Span) : P.Traces (CheckM.listLiteral items span) := by
  cases items with
  | nil => exact .pure _
  | cons first rest =>
      rcases List.forall_mem_cons.mp h with ⟨hfirst, hrest⟩
      refine hfirst.check.seq fun first => Traces.seq (Traces.collect fun x hx => ?_) fun rest =>
        .pure _
      rcases List.mem_map.mp hx with ⟨o, ho, rfl⟩
      exact (hrest o ho).confirm _

theorem mapLiteral {entries : List (StaticTyping.Operand × StaticTyping.Operand)}
    (h : ∀ e ∈ entries, P.Operand e.1 ∧ P.Operand e.2) (span : Span) :
    P.Traces (CheckM.mapLiteral entries span) := by
  cases entries with
  | nil => exact .pure _
  | cons first rest =>
      rcases List.forall_mem_cons.mp h with ⟨⟨hkey, hvalue⟩, hrest⟩
      refine hkey.check.seq fun key => hvalue.check.seq fun value => Traces.seq
        (Traces.collect fun x hx => ?_) fun rest => .pure _
      rcases List.mem_map.mp hx with ⟨e, he, rfl⟩
      rcases hrest e he with ⟨hkey, hvalue⟩
      exact (hkey.confirm _).seq fun key => (hvalue.confirm _).seq fun value => .pure _

theorem isTest {value : CheckM Typed.Expr} (h : P.Traces value) {interface : Ident}
    (hinterface : P.marks interface.line) {span : Span} (hspan : P.marks span.line) :
    P.Traces (CheckM.isTest value interface span) := by
  refine h.seq fun value => (P.valueOf _ hinterface).seq fun ty => ?_
  cases ty with
  | interfaceTy i => exact .pure _
  | _ => exact .fail _ hspan

theorem block {stmts : List (CheckM Typed.Stmt)} (h : ∀ x ∈ stmts, P.Traces x) (span : Span) :
    P.Traces (CheckM.block stmts span) :=
  Traces.inExpr _ (Traces.inScope ((Traces.collect h).seq fun _ => .pure _))

theorem condExpr {condition : StaticTyping.Operand} (hcondition : P.Operand condition)
    {thenBranch : CheckM Typed.Block} (hthen : P.Traces thenBranch)
    {otherwise : Option (CheckM Typed.Expr)}
    (helse : ∀ x ∈ otherwise, P.Traces x ∧ ∀ e, x.MayGive env e → P.marks e.span.line)
    (span : Span) : P.Traces (CheckM.condExpr condition thenBranch otherwise span) := by
  refine (hcondition.confirm _).seq fun condition => hthen.seq fun thenBranch => Traces.seq ?_
    fun otherwise => .pure _
  cases otherwise with
  | none => exact .pure none
  | some x =>
      rcases helse x rfl with ⟨hx, hline⟩
      exact hx.bind fun branch hbranch =>
        (Traces.require _ _ (hline branch hbranch)).seq fun _ => .pure _

/-!
# Statements
-/

theorem forLoop {init : Option (CheckM Typed.Stmt)} (hinit : ∀ x ∈ init, P.Traces x)
    {condition increment : Option StaticTyping.Operand} (hcondition : ∀ o ∈ condition, P.Operand o)
    (hincrement : ∀ o ∈ increment, P.Operand o) {body : List (CheckM Typed.Stmt)}
    (hbody : ∀ x ∈ body, P.Traces x) (span : Span) :
    P.Traces (CheckM.forLoop init condition increment body span) := by
  refine Traces.inStmt _ (Traces.inScope ((Traces.optional hinit).seq fun init => Traces.seq
    (Traces.optional fun x hx => ?_) fun condition => Traces.seq (Traces.optional fun x hx => ?_)
    fun increment => (Traces.collect hbody).seq fun body => .pure _))
  · rcases Option.map_eq_some_iff.mp hx with ⟨o, ho, rfl⟩
    exact (hcondition o ho).confirm _
  · rcases Option.map_eq_some_iff.mp hx with ⟨o, ho, rfl⟩
    exact (hincrement o ho).check

theorem forEach (name : Ident) {iterable : CheckM Typed.Expr} (h : P.Traces iterable)
    {body : List (CheckM Typed.Stmt)} (hbody : ∀ x ∈ body, P.Traces x) {span : Span}
    (hspan : P.marks span.line) : P.Traces (CheckM.forEach name iterable body span) :=
  Traces.inStmt _ (Traces.inScope (h.seq fun _ => (Traces.orFail _ _ hspan).seq fun _ =>
    (P.declare _ _).seq fun _ => (Traces.collect hbody).seq fun _ => .pure _))

theorem whileLoop {condition : StaticTyping.Operand} (h : P.Operand condition)
    {body : List (CheckM Typed.Stmt)} (hbody : ∀ x ∈ body, P.Traces x) (span : Span) :
    P.Traces (CheckM.whileLoop condition body span) :=
  Traces.inStmt _ (Traces.inScope ((h.confirm _).seq fun _ =>
    (Traces.collect hbody).seq fun _ => .pure _))

theorem returnStmt {value : Option StaticTyping.Operand} (h : ∀ o ∈ value, P.Operand o)
    (span : Span) : P.Traces (CheckM.returnStmt value span) := by
  refine Traces.inStmt _ (Traces.seq (Traces.optional fun x hx => ?_) fun value => .pure _)
  rcases Option.map_eq_some_iff.mp hx with ⟨o, ho, rfl⟩
  exact (h o ho).check

theorem loadPackage (package : String) {line : UInt32} (h : P.marks line) :
    P.Traces (CheckM.loadPackage package line) where
  keeps := P.load package line
  fault s e he := by
    unfold CheckM.loadPackage at he
    dsimp only at he
    split at he
    · cases he
    all_goals
      cases he
      exact h

theorem importModule {i : Source.Import} (h : P.marks i.span.line) :
    P.Traces (CheckM.importModule i) := by
  have hadd : ∀ m, P.Traces (addModule i.space m) :=
    fun m => .apart (fun _ => ⟨(), rfl⟩) (fun _ => rfl) fun _ => rfl
  exact (P.loadPackage i.package.name h).seq fun m => (hadd m).seq fun _ => .pure _

end Provenance
end StaticTyping
