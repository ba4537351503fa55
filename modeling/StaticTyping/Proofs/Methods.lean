import StaticTyping.Proofs.Arguments
import StaticTyping.Proofs.Order.Standard
import StaticTyping.Proofs.Pairing.Same
import StaticTyping.Proofs.Surface

/-!
# Methods of builtin types

A method of a text, a list or an error is a function of a standard package that takes the object as
its first argument.  Written as a method or as a function, a call is accepted in the same cases,
with the same result; the arguments differ by the object in front.
-/

namespace StaticTyping

open CheckM Source

/-!
# Where an expression stands
-/

/-- A check that goes the same way whatever expressions are around it, and leaves them as they
are. -/
structure CheckM.Standalone {α : Type} (env : Env) (x : CheckM α) : Prop where
  moved : ∀ s outer, x env { s with exprs := outer } =
    ((x env s).1, { (x env s).2 with exprs := outer })
  level : ∀ s, (x env s).2.exprs = s.exprs

abbrev Likeness.itself : Likeness :=
  .same Batch.Growing.eq fun _ => True

theorem Likeness.loads_itself (load : Loader) (package : String) (σ : Session) :
    itself.Loads (load package σ) (load package σ) := by
  rcases load package σ with ⟨r, τ⟩
  cases r with
  | ok m => exact .ok rfl ⟨rfl, trivial⟩
  | error e =>
      cases e with
      | cycle => exact .cycle ⟨rfl, trivial⟩
      | unavailable reason => exact .unavailable ⟨rfl, trivial⟩
      | failed errors => exact .failed rfl ⟨rfl, trivial⟩

def Pairing.itself (env : Env) : Pairing :=
  @Pairing.same _ Batch.Growing.eq (fun _ => True) env.settings env.settings.maxErrors
    env.settings.maxErrors env.file env.space (fun _ _ _ _ => trivial) env.load env.load
    fun package σ _ => Likeness.loads_itself env.load package σ

namespace Pairing

variable {α β : Type} {env : Env}

theorem eq_of_ends_itself {s s' t t' : State} (h : (itself env).Ends s s' t t') :
    t' = { t with exprs := s'.exprs } := by
  rcases t with ⟨session, classes, exprs, stmts, report⟩
  rcases t' with ⟨session', classes', exprs', stmts', report'⟩
  have hclasses : classes.map (ClassTy.strip .nothing) = classes'.map (ClassTy.strip .nothing) :=
    h.classes
  rw [funext ClassTy.strip_nothing, List.map_id', List.map_id'] at hclasses
  congr 1
  · exact h.session.1.symm
  · exact hclasses.symm
  · exact h.level'
  · exact h.stmts.symm
  · exact h.report.symm

theorem Pairs.apply_of_top? {strip : Cut → α → α} (hstrip : ∀ a, strip .nothing a = a)
    {x : CheckM α}
    (h : (itself env).Pairs ((itself env).Alike strip) x x) (s : State)
    {outer : ContextStack ExprContext} (htop : s.exprs.top? = outer.top?) :
    x env { s with exprs := outer } = ((x env s).1, { (x env s).2 with exprs := outer }) ∧
      (x env s).2.exprs = s.exprs := by
  have hmatch := h s { s with exprs := outer } ⟨⟨rfl, trivial⟩, rfl, htop, rfl, rfl⟩
  change (itself env).Match _ s _ (x env s) (x env { s with exprs := outer }) at hmatch
  rcases hrun : x env s with ⟨r, t⟩
  rcases hrun' : x env { s with exprs := outer } with ⟨r', t'⟩
  rw [hrun, hrun'] at hmatch
  cases hmatch with
  | ok hab hends =>
      cases Likeness.eq_of_same Batch.Growing.eq hstrip hab
      exact ⟨by rw [eq_of_ends_itself hends], hends.level⟩
  | error he hends =>
      cases he trivial
      exact ⟨by rw [eq_of_ends_itself hends], hends.level⟩
  | free hfree => exact hfree.elim

end Pairing

namespace CheckM.Standalone

variable {α β : Type} {env : Env}

theorem inExpr (c : ExprContext) {strip : Cut → α → α} (hstrip : ∀ a, strip .nothing a = a)
    {x : CheckM α} (h : (Pairing.itself env).Pairs ((Pairing.itself env).Alike strip) x x) :
    (CheckM.inExpr c x).Standalone env := by
  have hinside : ∀ (s : State) (outer : ContextStack ExprContext),
      x env { s with exprs := outer.push c } =
        ((x env { s with exprs := s.exprs.push c }).1,
          { (x env { s with exprs := s.exprs.push c }).2 with exprs := outer.push c }) ∧
      (x env { s with exprs := s.exprs.push c }).2.exprs = s.exprs.push c :=
    fun s outer => h.apply_of_top? hstrip { s with exprs := s.exprs.push c } rfl
  constructor
  · intro s outer
    show ((x env { s with exprs := outer.push c }).1,
      { (x env { s with exprs := outer.push c }).2 with
        exprs := (x env { s with exprs := outer.push c }).2.exprs.pop }) = _
    rw [(hinside s outer).1]
    rfl
  · intro s
    exact congrArg ContextStack.pop (hinside s s.exprs).2

theorem map {x : CheckM α} (h : x.Standalone env) (f : α → β) :
    (x >>= fun a => pure (f a)).Standalone env := by
  constructor
  · intro s outer
    have hmoved := h.moved s outer
    rcases hrun : x env s with ⟨r, t⟩
    rw [hrun] at hmoved
    cases r with
    | ok a => rw [bind_apply_of_ok hrun, bind_apply_of_ok hmoved]; rfl
    | error e => rw [bind_apply_of_error hrun, bind_apply_of_error hmoved]
  · intro s
    have hlevel := h.level s
    rcases hrun : x env s with ⟨r, t⟩
    rw [hrun] at hlevel
    cases r with
    | ok a => rw [bind_apply_of_ok hrun]; exact hlevel
    | error e => rw [bind_apply_of_error hrun]; exact hlevel

end CheckM.Standalone

theorem Source.Expr.meets_of_vacuous {c : Condition} (h : c.Vacuous) (e : Source.Expr) :
    Met (e.meets c) :=
  have hstmt : Met (c.stmt (.expr e) && e.meets c) := h.ofStmt ⟨.expr e, e.span⟩
  hstmt.right

theorem Checker.blockOf_standalone (env : Env) (b : Source.Block) :
    (blockOf b).Standalone env := by
  rcases b with ⟨ss, span⟩
  have hmet : Met (Stmt.allMeet (Pairing.itself env).condition ss) :=
    Condition.Vacuous.empty.ofStmts ss
  have hstmts := Pairing.stmts ss hmet
  rw [show Stmt.stripAll (Pairing.itself env).source ss = ss from Stmt.stripAll_false ss] at hstmts
  exact .inExpr _ Typed.Block.strip_nothing
    (Pairing.scopedBlock hstmts (fun hsource => absurd hsource Bool.false_ne_true) span)

theorem Checker.expr_standalone (env : Env) (e : Source.Expr) : (expr e).Standalone env := by
  rcases e with ⟨kind, span⟩
  have hmet : Met (kind.meets (Pairing.itself env).condition) :=
    Source.Expr.meets_of_vacuous Condition.Vacuous.empty ⟨kind, span⟩
  have hkind := Pairing.exprKind kind hmet span
  rw [show kind.strip (Pairing.itself env).source = kind from kind.strip_false] at hkind
  unfold expr
  split
  next hblock =>
    cases kind with
    | block b =>
        show (CheckM.blockExpr (blockOf b) span).Standalone env
        exact (blockOf_standalone env b).map _
    | _ => cases hblock
  next => exact .inExpr _ Typed.Expr.strip_nothing hkind

/-!
# Trees that import nothing
-/

/-- A tree without import statements. -/
def Source.Condition.importless : Source.Condition where
  stmt k := !k.isImport

def Frame.importless (env : Env) : Frame env .importless where
  rel s t := ∀ localName scope, env.imported? s.session.symbols localName = some scope →
    env.imported? t.session.symbols localName = some scope
  imports := False
  one h := .inl (Bool.false_ne_true h)
  many h := .inl (Bool.false_ne_true h)
  refl _ _ _ h := h
  trans h h' localName scope hscope := h' localName scope (h localName scope hscope)
  declare _ _ _ _ _ h := h
  standard {_ package localName} _ s name scope h := by
    rw [importStandard_apply]
    show (s.session.symbols.addStandard env.file package localName).imported? env.file name = _
    by_cases hname : name = localName
    · rw [SymbolTable.addStandard_eq_self (hname ▸ Option.ne_none_iff_exists'.mpr ⟨scope, h⟩)]
      exact h
    · rw [SymbolTable.imported?_addStandard_of_ne _ hname]
      exact h
  importModule h := h.elim
  inScope {s t} h name scope hscope := by
    have ht := h name scope hscope
    unfold Env.imported? SymbolTable.imported? SymbolTable.importsOf at ht ⊢
    rw [show (onSymbols (·.leave env.space) t).session.symbols.imports = _ from
      SymbolTable.imports_leave _ _]
    exact ht
  inStmt h := h
  inExpr h := h
  inClass h := h
  report h := h.elim

/-!
# The functions of the standard packages
-/

def Signature.methodic (sig : Signature) : Bool :=
  sig.params.all (fun p => !p.variadic && p.default.isNone) &&
    sig.params.head?.any fun p => match p.ty with
      | .interfaceTy _ | .map _ _ => false
      | _ => true

theorem Signature.methodic_cases {sig : Signature} (h : sig.methodic) :
    ∃ p ps, sig.params = p :: ps ∧ (∀ q ∈ p :: ps, q.variadic = false ∧ q.default = none) ∧
      (∀ i, p.ty ≠ .interfaceTy i) ∧ ∀ key value, p.ty ≠ .map key value := by
  rcases Bool.and_eq_true_iff.mp h with ⟨hall, hfirst⟩
  cases hparams : sig.params with
  | nil =>
      rw [hparams] at hfirst
      cases hfirst
  | cons p ps =>
      rw [hparams] at hall hfirst
      refine ⟨p, ps, rfl, fun q hq => ?_, fun i hty => ?_, fun key value hty => ?_⟩
      · have hq := List.all_eq_true.mp hall q hq
        simpa using hq
      · simp [hty] at hfirst
      · simp [hty] at hfirst

theorem Library.onDemand_methodic :
    ∀ p ∈ onDemand, (standard? p.1).any fun m =>
      m.members.all fun member => member.2.callSignature?.all Signature.methodic := by
  decide

theorem Library.methodic_of_get? {p : String × String} (hp : p ∈ onDemand) {m : ModuleTy}
    (hm : standard? p.1 = some m) {name : String} {ty : Ty}
    (hty : (Scope.ofModule m).get? name = some ty) {sig : Signature}
    (hsig : ty.callSignature? = some sig) : sig.methodic := by
  have hall := onDemand_methodic p hp
  rw [hm] at hall
  have hmember := List.all_eq_true.mp hall _ (Dict.mem_of_get?_insertAll hty)
  rw [hsig] at hmember
  exact hmember

/-!
# Calls
-/

namespace CheckM

variable {α : Type} {env : Env} {s t : State}

theorem inExpr_apply {c : ExprContext} {x : CheckM α} {r : Except Fault α}
    (h : x env { s with exprs := s.exprs.push c } = (r, t)) :
    inExpr c x env s = (r, { t with exprs := t.exprs.pop }) := by
  have hrun : inExpr c x env s = ((x env { s with exprs := s.exprs.push c }).1,
      { (x env { s with exprs := s.exprs.push c }).2 with
        exprs := (x env { s with exprs := s.exprs.push c }).2.exprs.pop }) := rfl
  rw [hrun, h]

theorem inExpr_apply_eq_ok {c : ExprContext} {x : CheckM α} {a : α} :
    inExpr c x env s = (.ok a, t) ↔
      ∃ u, x env { s with exprs := s.exprs.push c } = (.ok a, u) ∧
        t = { u with exprs := u.exprs.pop } := by
  rcases hrun : x env { s with exprs := s.exprs.push c } with ⟨r, u⟩
  rw [inExpr_apply hrun]
  constructor
  · intro h
    cases h
    exact ⟨u, rfl, rfl⟩
  · rintro ⟨_, h, rfl⟩
    cases h
    rfl

theorem view_apply_eq_ok {f : Env → State → α} {a : α} :
    view f env s = (.ok a, t) ↔ f env s = a ∧ t = s := by
  constructor
  · intro h
    cases h
    exact ⟨rfl, rfl⟩
  · rintro ⟨rfl, rfl⟩
    rfl

theorem adopted?_eq_none {e : Source.Expr} {expected : Ty} (hlist : e.kind ≠ .list [])
    (hmap : ∀ key value, expected ≠ .map key value) : adopted? e expected = none := by
  unfold adopted?
  split
  next hkind => exact absurd hkind hlist
  next => exact absurd rfl (hmap _ _)
  next => rfl

theorem confirm_apply_eq_ok {e : Source.Expr} {check : CheckM Typed.Expr} {expected : Ty}
    (hlist : e.kind ≠ .list []) (hmap : ∀ key value, expected ≠ .map key value)
    (hinterface : ∀ i, expected ≠ .interfaceTy i) {value : Typed.Expr} :
    confirm e check expected env s = (.ok value, t) ↔
      check env s = (.ok value, t) ∧ expected.accepts value.ty := by
  have haccepts : ∀ (table : SymbolTable) (found : Ty),
      env.accepts table expected found = expected.accepts found := by
    intro table found
    unfold Env.accepts
    split
    next => exact absurd rfl (hinterface _)
    next => rfl
  unfold confirm adoptOr accepts
  rw [adopted?_eq_none hlist hmap]
  simp only [bind_apply_eq_ok, require_apply_eq_ok, view_apply_eq_ok, haccepts]
  constructor
  · rintro ⟨typed, _, hcheck, ok, _, ⟨hok, rfl⟩, _, _, ⟨rfl, rfl⟩, hpure⟩
    cases hpure
    exact ⟨hcheck, hok⟩
  · rintro ⟨hcheck, hok⟩
    exact ⟨value, t, hcheck, true, t, ⟨hok, rfl⟩, (), t, ⟨rfl, rfl⟩, rfl⟩

theorem call_apply_eq_ok {e : Source.Expr} {check : CheckM Typed.Expr} {args : List Argument}
    {span : Span} {c : Call} :
    call e check args span env s = (.ok c, t) ↔
      ∃ callee s₁ sig sig' s₂ values, check env s = (.ok callee, s₁) ∧
        callee.ty.callSignature? = some sig ∧
        argumentSignature (calleeName e) sig callee args.length span.line env s₁ = (.ok sig', s₂) ∧
        arrange (calleeName e) sig' args span env s₂ = (.ok values, t) ∧
        c = ⟨callee, values, sig'.ret⟩ := by
  unfold call
  simp only [bind_apply_eq_ok, orFail_apply_eq_ok]
  constructor
  · rintro ⟨callee, s₁, hcheck, sig, _, ⟨hsig, rfl⟩, sig', s₂, hsig', values, _, hvalues, hpure⟩
    cases hpure
    exact ⟨callee, _, sig, sig', s₂, values, hcheck, hsig, hsig', hvalues, rfl⟩
  · rintro ⟨callee, s₁, sig, sig', s₂, values, hcheck, hsig, hsig', hvalues, rfl⟩
    exact ⟨callee, s₁, hcheck, sig, s₁, ⟨hsig, rfl⟩, sig', s₂, hsig', values, t, hvalues, rfl⟩

end CheckM

theorem Ty.isPlain_of_builtinPackage? {ty : Ty} {p : String × String}
    (h : ty.builtinPackage? = some p) : ty.isPlain := by
  unfold builtinPackage? at h
  split at h
  · rfl
  · rfl
  · rfl
  · cases h

/-- A call of a method on an object. -/
def Source.Expr.methodCall (e : Source.Expr) (f : Ident) (getSpan : Span) (args : List Source.Expr)
    (callSpan span : Span) : Source.Expr :=
  ⟨.call ⟨.get e f, getSpan⟩ (Arg.positional args) callSpan, span⟩

/-- A call of a function that is imported under a local name. -/
def Source.Expr.functionCall (localName : Ident) (varSpan : Span) (f : Ident) (getSpan : Span)
    (args : List Source.Expr) (callSpan span : Span) : Source.Expr :=
  ⟨.call ⟨.get ⟨.var localName, varSpan⟩ f, getSpan⟩ (Arg.positional args) callSpan, span⟩

namespace Checker

structure Receives (env : Env) (scope : Scope) (object : Typed.Expr) (f : String)
    (args : List Source.Expr) (span : Span) (s : State) (ty : Ty) (sig : Signature)
    (values : List Typed.Expr) (t : State) : Prop where
  found : scope.get? f = some ty
  callable : ty.callSignature? = some sig
  accepted : ∃ p ps, sig.params = p :: ps ∧ p.bodyTy.accepts object.ty ∧
    arrange f ⟨ps, sig.ret⟩ (arguments (Arg.positional args)) span env s = (.ok values, t)

variable {env : Env} {s t : State}

theorem Receives.values_eq {scope : Scope} {object : Typed.Expr} {f : String}
    {args : List Source.Expr} {span : Span} {ty ty' : Ty} {sig sig' : Signature}
    {values values' : List Typed.Expr} {t' : State}
    (h : Receives env scope object f args span s ty sig values t)
    (h' : Receives env scope object f args span s ty' sig' values' t') :
    values' = values ∧ t' = t := by
  obtain ⟨hfound, hcallable, p, ps, hparams, -, hvalues⟩ := h
  obtain ⟨hfound', hcallable', p', ps', hparams', -, hvalues'⟩ := h'
  cases hfound.symm.trans hfound'
  cases hcallable.symm.trans hcallable'
  cases hparams.symm.trans hparams'
  cases hvalues.symm.trans hvalues'
  exact ⟨rfl, rfl⟩

theorem expr_call_eq_ok {callee : Source.Expr} {args : List Source.Arg} {callSpan span : Span}
    {r : Typed.Expr} :
    expr ⟨.call callee args callSpan, span⟩ env s = (.ok r, t) ↔
      ∃ c u, call callee (expr callee) (arguments args) callSpan env
          { s with exprs := s.exprs.push .other } = (.ok c, u) ∧
        r = ⟨.call c.callee c.args, c.ty, span⟩ ∧ t = { u with exprs := u.exprs.pop } := by
  show inExpr .other (callExpr _ span) env s = _ ↔ _
  rw [inExpr_apply_eq_ok]
  unfold callExpr
  simp only [bind_apply_eq_ok]
  constructor
  · rintro ⟨_, ⟨c, u, hcall, hpure⟩, rfl⟩
    cases hpure
    exact ⟨c, _, hcall, rfl, rfl⟩
  · rintro ⟨c, u, hcall, rfl, rfl⟩
    exact ⟨u, ⟨c, u, hcall, rfl⟩, rfl⟩

theorem expr_get_eq_ok {object : Source.Expr} {name : Ident} {span : Span} {r : Typed.Expr} :
    expr ⟨.get object name, span⟩ env s = (.ok r, t) ↔
      ∃ m u, member object (expr object) name env { s with exprs := s.exprs.push .other } =
          (.ok m, u) ∧
        r = ⟨.get m.object name m.access, m.ty, span⟩ ∧ t = { u with exprs := u.exprs.pop } := by
  show inExpr .other (getExpr _ name span) env s = _ ↔ _
  rw [inExpr_apply_eq_ok]
  unfold getExpr
  simp only [bind_apply_eq_ok]
  constructor
  · rintro ⟨_, ⟨m, u, hmember, hpure⟩, rfl⟩
    cases hpure
    exact ⟨m, _, hmember, rfl, rfl⟩
  · rintro ⟨m, u, hmember, rfl, rfl⟩
    exact ⟨u, ⟨m, u, hmember, rfl⟩, rfl⟩

theorem member_import_eq_ok {var name : Ident} {varSpan : Span} {scope : Scope}
    (hscope : env.imported? s.session.symbols var.name = some scope) {check : CheckM Typed.Expr}
    {m : Member} :
    member ⟨.var var, varSpan⟩ check name env s = (.ok m, t) ↔
      ∃ ty, scope.get? name.name = some ty ∧ t = s ∧
        m = ⟨⟨.var var, .moduleTy (scope.toModule var.name), var.span⟩, .member var.name, ty⟩ := by
  have hfound : importNamed? ⟨.var var, varSpan⟩ env s = (.ok (some (var, scope)), s) := by
    show (Except.ok ((env.imported? s.session.symbols var.name).map _), s) = _
    rw [hscope]
    rfl
  unfold member
  rw [bind_apply_of_ok hfound]
  show importMember var name scope env s = _ ↔ _
  unfold importMember
  simp only [bind_apply_eq_ok, orFail_apply_eq_ok]
  constructor
  · rintro ⟨ty, _, ⟨hty, rfl⟩, hpure⟩
    cases hpure
    exact ⟨ty, hty, rfl, rfl⟩
  · rintro ⟨ty, hty, rfl, rfl⟩
    exact ⟨ty, t, ⟨hty, rfl⟩, rfl⟩

theorem valueMember_builtin_eq_ok {object : Typed.Expr} {package localName : String}
    (hobject : object.ty.builtinPackage? = some (package, localName)) {scope : Scope}
    (hscope : env.imported? s.session.symbols localName = some scope) {name : Ident} {m : Member} :
    valueMember object name env s = (.ok m, t) ↔
      ∃ ty, scope.get? name.name = some ty ∧ t = s ∧ m = ⟨object, .builtin localName, ty⟩ := by
  have hpresent : s.session.symbols.imported? env.file localName ≠ none :=
    Option.ne_none_iff_exists'.mpr ⟨scope, hscope⟩
  have himport : importStandard package localName env s = (.ok (), s) := by
    rw [importStandard_apply]
    show (Except.ok (), { s with session := { s.session with
      symbols := s.session.symbols.addStandard env.file package localName } }) = _
    rw [SymbolTable.addStandard_eq_self hpresent]
  have hfound : imported? localName env s = (.ok (some scope), s) := by
    show (Except.ok (env.imported? s.session.symbols localName), s) = _
    rw [hscope]
  rw [Pairing.valueMember_of_plain name (Ty.isPlain_of_builtinPackage? hobject), hobject]
  dsimp only
  rw [bind_apply_of_ok himport, bind_apply_of_ok hfound]
  simp only [bind_apply_eq_ok, orFail_apply_eq_ok, Option.bind_some]
  constructor
  · rintro ⟨ty, _, ⟨hty, rfl⟩, hpure⟩
    cases hpure
    exact ⟨ty, hty, rfl, rfl⟩
  · rintro ⟨ty, hty, rfl, rfl⟩
    exact ⟨ty, t, ⟨hty, rfl⟩, rfl⟩

theorem member_value (s : State) {e : Source.Expr} (check : CheckM Typed.Expr) (name : Ident)
    (h : ∀ var, e.kind = .var var → env.imported? s.session.symbols var.name = none) :
    member e check name env s = (check >>= fun object => valueMember object name) env s := by
  have hfound : importNamed? e env s = (.ok none, s) := by
    rcases e with ⟨kind, span⟩
    cases kind with
    | var var =>
        show (Except.ok ((env.imported? s.session.symbols var.name).map _), s) = _
        rw [h var rfl]
        rfl
    | _ => rfl
  unfold member
  rw [bind_apply_of_ok hfound]

theorem arrange_receiver_eq_ok {callee : String} {sig : Signature} {p : Param} {ps : List Param}
    (hparams : sig.params = p :: ps)
    (hfixed : ∀ q ∈ p :: ps, q.variadic = false ∧ q.default = none)
    (hinterface : ∀ i, p.ty ≠ .interfaceTy i) (hmap : ∀ key value, p.ty ≠ .map key value)
    {e : Source.Expr} (hlist : e.kind ≠ .list []) {object : Typed.Expr} {s' : State}
    (hcheck : expr e env s = (.ok object, s')) {args : List Source.Expr} {span span' : Span}
    {values : List Typed.Expr} :
    arrange callee sig (arguments (Arg.positional (e :: args))) span env s = (.ok values, t) ↔
      ∃ rest, values = object :: rest ∧ p.ty.accepts object.ty ∧
        arrange callee ⟨ps, sig.ret⟩ (arguments (Arg.positional args)) span' env s' =
          (.ok rest, t) := by
  have hfixed' : ∀ q ∈ sig.params, q.variadic = false ∧ q.default = none := hparams ▸ hfixed
  have hrest : ∀ q ∈ (Signature.mk ps sig.ret).params, q.variadic = false ∧ q.default = none :=
    fun q hq => hfixed q (List.mem_cons_of_mem _ hq)
  simp only [arrange_positional_eq_ok hfixed', arrange_positional_eq_ok hrest, hparams,
    List.zipWith_cons_cons, collect, bind_apply_eq_ok, confirm_apply_eq_ok hlist hmap hinterface,
    hcheck, List.length_cons, Nat.add_right_cancel_iff]
  constructor
  · rintro ⟨hlength, _, _, ⟨hobject, haccepts⟩, rest, u, hcollect, hpure⟩
    cases hobject
    cases hpure
    exact ⟨rest, rfl, haccepts, hlength, hcollect⟩
  · rintro ⟨rest, rfl, haccepts, hlength, hcollect⟩
    exact ⟨hlength, object, s', ⟨rfl, haccepts⟩, rest, t, hcollect, rfl⟩

theorem expr_get_import_eq_ok {var : Ident} {scope : Scope}
    (hscope : env.imported? s.session.symbols var.name = some scope) {varSpan getSpan : Span}
    {f : Ident} {callee : Typed.Expr} :
    expr ⟨.get ⟨.var var, varSpan⟩ f, getSpan⟩ env s = (.ok callee, t) ↔
      ∃ ty, scope.get? f.name = some ty ∧ t = s ∧
        callee = ⟨.get ⟨.var var, .moduleTy (scope.toModule var.name), var.span⟩ f
          (.member var.name), ty, getSpan⟩ := by
  have hinside : env.imported? (State.session { s with exprs := s.exprs.push .other }).symbols
    var.name = some scope := hscope
  simp only [expr_get_eq_ok, member_import_eq_ok hinside]
  constructor
  · rintro ⟨_, _, ⟨ty, hty, rfl, rfl⟩, rfl, rfl⟩
    exact ⟨ty, hty, rfl, rfl⟩
  · rintro ⟨ty, hty, rfl, rfl⟩
    exact ⟨_, _, ⟨ty, hty, rfl, rfl⟩, rfl, rfl⟩

section Receiver

variable {e : Source.Expr} {object : Typed.Expr} {s' : State}
  (hcheck : expr e env s = (.ok object, s')) {package localName : String}
  (hobject : object.ty.builtinPackage? = some (package, localName))
  (hname : ∀ var, e.kind = .var var → env.imported? s.session.symbols var.name = none)
  {scope : Scope} (hscope : env.imported? s'.session.symbols localName = some scope)
include hcheck

theorem expr_moved (outer : ContextStack ExprContext) :
    expr e env { s with exprs := outer } = (.ok object, { s' with exprs := outer }) := by
  rw [(expr_standalone env e).moved, hcheck]

include hobject hname hscope

theorem expr_get_method_eq_ok (outer : ContextStack ExprContext) {f : Ident} {getSpan : Span}
    {callee : Typed.Expr} :
    expr ⟨.get e f, getSpan⟩ env { s with exprs := outer } = (.ok callee, t) ↔
      ∃ ty, scope.get? f.name = some ty ∧ t = { s' with exprs := outer } ∧
        callee = ⟨.get object f (.builtin localName), ty, getSpan⟩ := by
  have hinside : env.imported? (State.session { s' with exprs := outer.push .other }).symbols
    localName = some scope := hscope
  have hmember : member e (expr e) f env { s with exprs := outer.push .other } =
      valueMember object f env { s' with exprs := outer.push .other } :=
    (member_value { s with exprs := outer.push .other } (expr e) f hname).trans
      (bind_apply_of_ok (expr_moved hcheck _))
  simp only [expr_get_eq_ok, hmember, valueMember_builtin_eq_ok hobject hinside]
  constructor
  · rintro ⟨_, _, ⟨ty, hty, rfl, rfl⟩, rfl, rfl⟩
    exact ⟨ty, hty, rfl, rfl⟩
  · rintro ⟨ty, hty, rfl, rfl⟩
    exact ⟨_, _, ⟨ty, hty, rfl, rfl⟩, rfl, rfl⟩

theorem methodCall_eq_ok {f : Ident} {getSpan : Span} {args : List Source.Expr}
    {callSpan span : Span} {r : Typed.Expr} :
    expr (e.methodCall f getSpan args callSpan span) env s = (.ok r, t) ↔
      ∃ ty sig values u, Receives env scope object f.name args callSpan
          { s' with exprs := s.exprs.push .other } ty sig values u ∧
        r = ⟨.call ⟨.get object f (.builtin localName), ty, getSpan⟩ values, sig.ret, span⟩ ∧
        t = { u with exprs := u.exprs.pop } := by
  unfold Source.Expr.methodCall
  simp only [expr_call_eq_ok, call_apply_eq_ok,
    expr_get_method_eq_ok hcheck hobject hname hscope]
  constructor
  · rintro ⟨_, u, ⟨_, _, sig, sig', _, values, ⟨ty, hty, rfl, rfl⟩, hsig, hsig', hvalues, rfl⟩,
      rfl, rfl⟩
    -- the object takes the place of the first parameter
    change dropReceiver f.name sig object _ _ env _ = _ at hsig'
    unfold dropReceiver at hsig'
    cases hparams : sig.params with
    | nil =>
        rw [hparams] at hsig'
        cases hsig'
    | cons p ps =>
        rw [hparams] at hsig'
        obtain ⟨_, _, hrequire, hpure⟩ := bind_apply_eq_ok.mp hsig'
        obtain ⟨haccepts, rfl⟩ := require_apply_eq_ok.mp hrequire
        cases hpure
        exact ⟨ty, sig, values, u, ⟨hty, hsig, p, ps, hparams, haccepts, hvalues⟩, rfl, rfl⟩
  · rintro ⟨ty, sig, values, u, ⟨hty, hsig, p, ps, hparams, haccepts, hvalues⟩, rfl, rfl⟩
    refine ⟨_, u, ⟨_, _, sig, ⟨ps, sig.ret⟩, _, values, ⟨ty, hty, rfl, rfl⟩, hsig, ?_, hvalues,
      rfl⟩, rfl, rfl⟩
    show dropReceiver f.name sig object _ _ env _ = _
    unfold dropReceiver
    rw [hparams]
    dsimp only
    rw [haccepts]
    rfl

end Receiver

theorem functionCall_eq_ok {var : Ident} {scope : Scope}
    (hscope : env.imported? s.session.symbols var.name = some scope) {varSpan getSpan : Span}
    {f : Ident} {args : List Source.Expr} {callSpan span : Span} {r : Typed.Expr} :
    expr (.functionCall var varSpan f getSpan args callSpan span) env s = (.ok r, t) ↔
      ∃ ty sig values u, scope.get? f.name = some ty ∧ ty.callSignature? = some sig ∧
        arrange f.name sig (arguments (Arg.positional args)) callSpan env
          { s with exprs := s.exprs.push .other } = (.ok values, u) ∧
        r = ⟨.call ⟨.get ⟨.var var, .moduleTy (scope.toModule var.name), var.span⟩ f
          (.member var.name), ty, getSpan⟩ values, sig.ret, span⟩ ∧
        t = { u with exprs := u.exprs.pop } := by
  have hinside : env.imported? (State.session { s with exprs := s.exprs.push .other }).symbols
    var.name = some scope := hscope
  unfold Source.Expr.functionCall
  simp only [expr_call_eq_ok, call_apply_eq_ok, expr_get_import_eq_ok hinside]
  constructor
  · rintro ⟨_, u, ⟨_, _, sig, sig', _, values, ⟨ty, hty, rfl, rfl⟩, hsig, hsig', hvalues, rfl⟩, rfl,
      rfl⟩
    cases hsig'
    exact ⟨ty, sig, values, u, hty, hsig, hvalues, rfl, rfl⟩
  · rintro ⟨ty, sig, values, u, hty, hsig, hvalues, rfl, rfl⟩
    exact ⟨_, u, ⟨_, _, sig, sig, _, values, ⟨ty, hty, rfl, rfl⟩, hsig, rfl, hvalues, rfl⟩, rfl,
      rfl⟩

theorem functionCall_receiver_eq_ok {package : String} {localName : Ident}
    (hpackage : (package, localName.name) ∈ Library.onDemand) {m : ModuleTy}
    (hm : Library.standard? package = some m)
    (hscope : env.imported? s.session.symbols localName.name = some (.ofModule m))
    {e : Source.Expr} (hlist : e.kind ≠ .list []) {object : Typed.Expr} {s' : State}
    (hcheck : expr e env s = (.ok object, s')) {varSpan getSpan : Span} {f : Ident}
    {args : List Source.Expr} (callSpan : Span) {callSpan' span : Span} {r : Typed.Expr} :
    expr (.functionCall localName varSpan f getSpan (e :: args) callSpan' span) env s =
        (.ok r, t) ↔
      ∃ ty sig values u, Receives env (.ofModule m) object f.name args callSpan
          { s' with exprs := s.exprs.push .other } ty sig values u ∧
        r = ⟨.call ⟨.get ⟨.var localName, .moduleTy ((Scope.ofModule m).toModule localName.name),
          localName.span⟩ f (.member localName.name), ty, getSpan⟩ (object :: values), sig.ret,
          span⟩ ∧
        t = { u with exprs := u.exprs.pop } := by
  have hmoved := expr_moved hcheck (s.exprs.push .other)
  rw [functionCall_eq_ok hscope]
  constructor
  · rintro ⟨ty, sig, _, u, hty, hsig, hvalues, rfl, rfl⟩
    -- the first parameter is neither variadic nor an interface nor a map, so that confirming the
    -- object against it comes to what the method asks
    obtain ⟨p, ps, hparams, hfixed, hinterface, hmap⟩ :=
      Signature.methodic_cases (Library.methodic_of_get? hpackage hm hty hsig)
    obtain ⟨values, rfl, haccepts, hrest⟩ :=
      (arrange_receiver_eq_ok hparams hfixed hinterface hmap hlist hmoved).mp hvalues
    rw [← bodyTy_of_not_variadic (hfixed p List.mem_cons_self).1] at haccepts
    exact ⟨ty, sig, values, u, ⟨hty, hsig, p, ps, hparams, haccepts, hrest⟩, rfl, rfl⟩
  · rintro ⟨ty, sig, values, u, ⟨hty, hsig, p, ps, hparams, haccepts, hrest⟩, rfl, rfl⟩
    obtain ⟨p', ps', hparams', hfixed, hinterface, hmap⟩ :=
      Signature.methodic_cases (Library.methodic_of_get? hpackage hm hty hsig)
    cases hparams.symm.trans hparams'
    rw [bodyTy_of_not_variadic (hfixed p List.mem_cons_self).1] at haccepts
    exact ⟨ty, sig, _, u, hty, hsig,
      (arrange_receiver_eq_ok hparams hfixed hinterface hmap hlist hmoved).mpr
        ⟨values, rfl, haccepts, hrest⟩, rfl, rfl⟩

/-- Where the standard packages with methods are imported, a method called on an object of a builtin
type is accepted exactly if the function of the same name is, called with the object in front of the
arguments.  The results have the same type, and the same arguments apart from the object. -/
theorem methodCall_iff_functionCall (env : Env) (s s' : State)
    (hstandard : ∀ p ∈ Library.onDemand, ∃ m, Library.standard? p.1 = some m ∧
      env.imported? s.session.symbols p.2 = some (.ofModule m))
    (e : Source.Expr) (object : Typed.Expr) (hcheck : expr e env s = (.ok object, s'))
    (package : String) (localName : Ident)
    (hobject : object.ty.builtinPackage? = some (package, localName.name))
    (hname : ∀ var, e.kind = .var var → env.imported? s.session.symbols var.name = none)
    (hlist : e.kind ≠ .list []) (himports : e.meets .importless) (f : Ident)
    (args : List Source.Expr) (varSpan getSpan getSpan' callSpan callSpan' span span' : Span) :
    (∀ ty, (∃ r t, expr (e.methodCall f getSpan args callSpan span) env s = (.ok r, t) ∧
        r.ty = ty) ↔
      ∃ r t, expr (.functionCall localName varSpan f getSpan' (e :: args) callSpan' span') env s =
        (.ok r, t) ∧ r.ty = ty) ∧
    ∀ r t r' t', expr (e.methodCall f getSpan args callSpan span) env s = (.ok r, t) →
      expr (.functionCall localName varSpan f getSpan' (e :: args) callSpan' span') env s =
        (.ok r', t') →
      t' = t ∧ ∃ callee callee' values,
        r.kind = .call callee values ∧ r'.kind = .call callee' (object :: values) := by
  have hpackage := Library.mem_onDemand hobject
  obtain ⟨m, hm, hscope⟩ := hstandard _ hpackage
  have hscope' : env.imported? s'.session.symbols localName.name = some (.ofModule m) := by
    have hkeeps := (Frame.importless env).closure.expr e (.inr himports) s
    rw [hcheck] at hkeeps
    exact hkeeps _ _ hscope
  simp only [methodCall_eq_ok hcheck hobject hname hscope',
    functionCall_receiver_eq_ok hpackage hm hscope hlist hcheck callSpan]
  refine ⟨fun result => ⟨?_, ?_⟩, ?_⟩
  · rintro ⟨_, _, ⟨ty, sig, values, u, hreceives, rfl, rfl⟩, rfl⟩
    exact ⟨_, _, ⟨ty, sig, values, u, hreceives, rfl, rfl⟩, rfl⟩
  · rintro ⟨_, _, ⟨ty, sig, values, u, hreceives, rfl, rfl⟩, rfl⟩
    exact ⟨_, _, ⟨ty, sig, values, u, hreceives, rfl, rfl⟩, rfl⟩
  · rintro _ _ _ _ ⟨ty, sig, values, u, hreceives, rfl, rfl⟩
      ⟨ty', sig', values', u', hreceives', rfl, rfl⟩
    obtain ⟨rfl, rfl⟩ := hreceives.values_eq hreceives'
    exact ⟨rfl, _, _, _, rfl, rfl⟩

end Checker

namespace Sample

def withMethods : State :=
  onSymbols (fun t => Library.onDemand.foldl (fun t p => t.addStandard "main.aura" p.1 p.2) t) fresh

def words : Source.Expr :=
  .methodCall (expr (.string "a b")) (ident "split") default [expr (.string " ")] default default

end Sample

theorem Checker.methodCall_iff_functionCall_join :
    ∃ object s', expr Sample.words Sample.mainEnv Sample.withMethods = (.ok object, s') ∧
      object.ty.builtinPackage? = some ("aura/lists", "lists") ∧
      (∃ r t, expr (Sample.words.methodCall (Sample.ident "join") default
        [Sample.expr (.string ", ")] default default) Sample.mainEnv Sample.withMethods =
          (.ok r, t) ∧ r.ty = .string) ∧
      ∃ r t, expr (.functionCall (Sample.ident "lists") default (Sample.ident "join") default
        [Sample.words, Sample.expr (.string ", ")] default default) Sample.mainEnv
          Sample.withMethods = (.ok r, t) ∧ r.ty = .string := by
  have hstandard : ∀ p ∈ Library.onDemand, ∃ m, Library.standard? p.1 = some m ∧
      Sample.mainEnv.imported? Sample.withMethods.session.symbols p.2 = some (.ofModule m) :=
    List.forall_mem_cons.mpr ⟨⟨_, rfl, rfl⟩, List.forall_mem_cons.mpr ⟨⟨_, rfl, rfl⟩,
      List.forall_mem_singleton.mpr ⟨_, rfl, rfl⟩⟩⟩
  have hmethod : ∃ r t, expr (Sample.words.methodCall (Sample.ident "join") default
      [Sample.expr (.string ", ")] default default) Sample.mainEnv Sample.withMethods =
        (.ok r, t) ∧ r.ty = .string := ⟨_, _, rfl, rfl⟩
  refine ⟨_, _, rfl, rfl, hmethod, ?_⟩
  exact ((methodCall_iff_functionCall Sample.mainEnv Sample.withMethods _ hstandard Sample.words _
    rfl _ (Sample.ident "lists") rfl (fun _ h => by cases h) (fun h => by cases h) rfl
    (Sample.ident "join") [Sample.expr (.string ", ")] default default default default default
    default default).1 .string).mp hmethod

end StaticTyping
