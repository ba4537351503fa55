import StaticTyping.Proofs.Prelude
import StaticTyping.Proofs.Signatures

/-!
# What a check binds

An expression leaves every name of its module as it was.  A statement binds in the innermost scope
the names that it declares and no others: a variable when its value is known, a function or a class
as soon as it has a signature, whatever becomes of its body, and an interface together with its
methods.  Only a package that shares the namespace of the module and is not under way could bind
more.
-/

namespace StaticTyping

open CheckM

/-!
# Declarations as bindings
-/

def Loader.SparesScopes (load : Loader) (way : List String) (space : String) : Prop :=
  ∀ package σ, σ.underWay = way →
    (load package σ).2.symbols.scopesOf space = σ.symbols.scopesOf space

def CheckM.boundBy {α : Type} (x : CheckM α) (bindings : α → List (String × Ty)) (env : Env)
    (s : State) : List (String × Ty) :=
  match (x env s).1 with
  | .ok a => bindings a
  | .error _ => []

def Typed.Stmt.variableBinding : Typed.Stmt → List (String × Ty)
  | ⟨.binding name _ _ ty _, _⟩ => [(name.name, ty)]
  | _ => []

/-- What a statement binds where it stands, when it is checked from a state. -/
def Checker.bindingsOf : Source.Stmt → Env → State → List (String × Ty)
  | ⟨.binding d, span⟩ => (bindingOf d span).boundBy Typed.Stmt.variableBinding
  | ⟨.function h _, span⟩ => (head h span.line).boundBy fun f => [(h.name.name, .named f)]
  | ⟨.classDecl d, _⟩ => (classOf d).boundBy fun c => [(d.name.name, .classTy c)]
  | ⟨.interfaceDecl d, _⟩ => (interfaceOf d).boundBy interfaceBindings
  | _ => fun _ _ => []

namespace CheckM

variable {α β : Type} {env : Env} {x : CheckM α} {s : State}

theorem Still.pure (a : α) : (pure a : CheckM α).Still env :=
  fun _ => rfl

theorem boundBy_of_ok {t : State} {a : α} (h : x env s = (.ok a, t))
    (bindings : α → List (String × Ty)) : x.boundBy bindings env s = bindings a := by
  simp [boundBy, h]

theorem boundBy_of_error {t : State} {e : Fault} (h : x env s = (.error e, t))
    (bindings : α → List (String × Ty)) : x.boundBy bindings env s = [] := by
  simp [boundBy, h]

theorem names_boundBy {bindings : α → List (String × Ty)} {names : List String} {y : CheckM β}
    (h : ∀ a, x.MayGive env a → (bindings a).map Prod.fst = names)
    (hfail : ∀ e t, x env s = (.error e, t) → (y env s).1 = .error e) :
    (x.boundBy bindings env s).map Prod.fst = names ∨
      x.boundBy bindings env s = [] ∧ ∃ e, (y env s).1 = .error e := by
  rcases hrun : x env s with ⟨r, t⟩
  cases r with
  | ok a =>
      left
      rw [boundBy_of_ok hrun]
      exact h a ⟨s, t, hrun⟩
  | error e =>
      right
      exact ⟨boundBy_of_error hrun _, e, hfail e t hrun⟩

theorem Still.declaring (hx : x.Still env) (bindings : α → List (String × Ty))
    {rest : α → CheckM β} (hrest : ∀ a, (rest a).Still env) (s : State) :
    ((x >>= fun a => declareAll (bindings a) >>= fun _ => rest a) env s).2.scopes env =
      (s.scopes env).bindAll (x.boundBy bindings env s) := by
  have hhead := hx s
  rcases h : x env s with ⟨r, t⟩
  rw [h] at hhead
  cases r with
  | error e =>
      rw [bind_apply_of_error h, boundBy_of_error h]
      exact hhead
  | ok a =>
      have hbound := scopes_declareAll env (bindings a) t
      rw [bind_apply_of_ok h, boundBy_of_ok h]
      rcases hall : declareAll (bindings a) env t with ⟨r, u⟩
      rw [hall, hhead] at hbound
      cases r with
      | error e =>
          rw [bind_apply_of_error hall]
          exact hbound
      | ok =>
          rw [bind_apply_of_ok hall]
          exact (hrest a u).trans hbound

theorem snd_bind_pure (x : CheckM α) (f : α → β) (env : Env) (s : State) :
    ((x >>= fun a => pure (f a)) env s).2 = (x env s).2 := by
  rcases hrun : x env s with ⟨r, t⟩
  cases r with
  | error e => rw [bind_apply_of_error hrun]
  | ok a =>
      rw [bind_apply_of_ok hrun]
      rfl

section

variable {way : List String} (hspares : env.load.SparesScopes way env.space)
include hspares

theorem scopes_importModule (i : Source.Import) (hway : s.session.underWay = way) :
    (importModule i env s).2.scopes env = s.scopes env :=
  session_importModule (P := fun τ => τ.symbols.scopesOf env.space = s.scopes env)
    (hspares i.package.name s.session hway) fun _ _ _ h => h

theorem scopes_importModules (hload : env.load.Releases) (is : List Source.Import)
    (hway : s.session.underWay = way) :
    (collect (is.map importModule) env s).2.scopes env = s.scopes env := by
  induction is generalizing s with
  | nil => rfl
  | cons i is ih =>
      have hfirst := scopes_importModule hspares i hway
      have hreleased := State.Released.importModule hload i s
      rw [List.map_cons, collect]
      rcases hrun : importModule i env s with ⟨r, t⟩
      rw [hrun] at hfirst hreleased
      cases r with
      | error e =>
          rw [bind_apply_of_error hrun]
          exact hfirst
      | ok target =>
          have hrest := ih (hreleased.session.underWay.trans hway)
          rw [bind_apply_of_ok hrun, snd_bind_pure, hrest, hfirst]

end

end CheckM

/-!
# Statements
-/

namespace Checker

variable {env : Env}

section

variable (hload : env.load.Releases)
include hload

theorem scopes_bindingOf (d : Source.Binding) (span : Span) (s : State) :
    (bindingOf d span env s).2.scopes env =
      (s.scopes env).bindAll ((bindingOf d span).boundBy Typed.Stmt.variableBinding env s) := by
  let s' : State := { s with stmts := s.stmts.push .binding }
  have hvalue := Stillness.bindingValue hload d span s'
  rcases d with ⟨name, isMutable, written, init⟩
  rcases h : bindingValue name written (operandOption init) span env s' with ⟨r, t⟩
  rw [h] at hvalue
  cases r with
  | error e =>
      have hrun : bindingOf ⟨name, isMutable, written, init⟩ span env s =
          (.error e, { t with stmts := t.stmts.pop }) := by
        show inStmt .binding _ env s = _
        unfold inStmt around
        rw [bind_apply_of_error h]
      rw [hrun, boundBy_of_error hrun]
      exact hvalue
  | ok bound =>
      have hrun : bindingOf ⟨name, isMutable, written, init⟩ span env s =
          (.ok ⟨.binding name isMutable written.isSome bound.1 bound.2, span⟩,
            { onSymbols (·.bind env.space name.name bound.1) t with stmts := t.stmts.pop }) := by
        show inStmt .binding _ env s = _
        unfold inStmt around
        rw [bind_apply_of_ok h]
        rfl
      rw [hrun, boundBy_of_ok hrun]
      refine (State.scopes_bind env t name.name bound.1).trans ?_
      rw [hvalue]
      rfl

theorem scopes_stmt {way : List String} (hspares : env.load.SparesScopes way env.space)
    (st : Source.Stmt) {s : State} (hway : s.session.underWay = way) :
    (stmt st env s).2.scopes env = (s.scopes env).bindAll (bindingsOf st env s) := by
  rcases st with ⟨kind, span⟩
  cases kind with
  | function h body =>
      exact Still.declaring (Stillness.head hload h span.line) (fun f => [(h.name.name, .named f)])
        (fun sig => Still.bind (Stillness.functionOf hload h.name body span.line sig)
          fun f _ => .pure (⟨.function f, span⟩ : Typed.Stmt)) s
  | binding d => exact scopes_bindingOf hload d span s
  | classDecl d =>
      have hinterfaces : ∀ c : ClassTy, (requireInterfaces c span.line c.implements).Still env :=
        fun c => (Grading.still env).requireInterfaces c span.line c.implements
      have hclass := Stillness.classOf hload d
      have hmethods := Stillness.methods hload d
      rcases d with ⟨name, visibility, ps, ms, implements⟩
      exact hclass.declaring (fun c => [(name.name, .classTy c)])
        (fun c => (hmethods c).bind fun methods _ => (hinterfaces c).bind fun _ _ =>
          .pure (⟨.classDecl name c methods, span⟩ : Typed.Stmt)) s
  | interfaceDecl d =>
      exact (Stillness.interfaceOf hload d).declaring interfaceBindings (fun _ => .pure _) s
  | importOne package alias? =>
      -- an import binds in the table of the file, not in a scope
      show ((importModule ⟨package, alias?, span⟩ >>= fun target =>
        pure (⟨.importOne target, span⟩ : Typed.Stmt)) env s).2.scopes env = _
      rw [snd_bind_pure, scopes_importModule hspares _ hway]
      rfl
  | importMany imports =>
      show ((collect (imports.map importModule) >>= fun targets =>
        pure (⟨.importMany targets, span⟩ : Typed.Stmt)) env s).2.scopes env = _
      rw [snd_bind_pure, scopes_importModules hspares hload imports hway]
      rfl
  | _ => exact Stillness.stmt hload rfl s

end

theorem names_bindingsOf (st : Source.Stmt) (env : Env) (s : State) :
    (bindingsOf st env s).map Prod.fst = st.declares ∨
      bindingsOf st env s = [] ∧ ∃ e, (stmt st env s).1 = .error e := by
  rcases st with ⟨kind, span⟩
  cases kind with
  | function h body =>
      apply names_boundBy
      · exact fun _ _ => rfl
      · intro e t hrun
        exact congrArg Prod.fst (bind_apply_of_error hrun)
  | binding d =>
      apply names_boundBy (y := bindingOf d span)
      · intro typed htyped
        rcases d with ⟨name, isMutable, written, init⟩
        rcases htyped with ⟨_, _, hrun⟩
        rcases inStmt_apply_eq_ok hrun with ⟨_, hinside, _⟩
        rcases bind_apply_eq_ok.mp hinside with ⟨bound, _, _, hrest⟩
        cases hrest
        rfl
      · intro e t hrun
        rw [hrun]
  | classDecl d =>
      apply names_boundBy
      · exact fun _ _ => rfl
      · intro e t hrun
        rcases d with ⟨name, visibility, ps, ms, implements⟩
        exact congrArg Prod.fst (bind_apply_of_error hrun)
  | interfaceDecl d =>
      apply names_boundBy
      · intro i hi
        rcases d with ⟨name, visibility, rs⟩
        rcases hi.of_bind with ⟨fs, hfs, _, _, hsig⟩
        cases hsig
        show name.name :: (fs.map fun f => (f.name, Ty.named f)).map Prod.fst = name.name :: _
        rw [List.map_map]
        exact congrArg (name.name :: ·) (names_of_requirements hfs)
      · intro e t hrun
        exact congrArg Prod.fst (bind_apply_of_error hrun)
  | _ => exact .inl rfl

end Checker

/-!
# Names and their types
-/

theorem Scopes.lookup?_bindAll (s : Scopes) (bs : List (String × Ty)) (name : String) :
    (s.bindAll bs).lookup? name = (bs.reverse.lookup name).or (s.lookup? name) := by
  induction bs generalizing s with
  | nil => rfl
  | cons b bs ih =>
      rcases b with ⟨bound, ty⟩
      rw [List.reverse_cons, List.lookup_append, Option.or_assoc]
      refine (ih (s.bind bound ty)).trans (congrArg _ ?_)
      by_cases h : name = bound
      · subst h
        rw [Scopes.lookup?_bind_self, List.lookup_cons_self]
        rfl
      · rw [s.lookup?_bind_of_ne ty h, List.lookup_cons, beq_false_of_ne h]
        rfl

/-- The type of a name in the module that is checked. -/
def State.typeOf? (env : Env) (s : State) (name : String) : Option Ty :=
  s.session.symbols.lookup? env.space name

theorem State.typeOf?_eq_scopes (env : Env) (s : State) (name : String) :
    s.typeOf? env name = (s.scopes env).lookup? name :=
  SymbolTable.lookup?_eq_scopesOf _ _ _

theorem CheckM.Still.typeOf? {α : Type} {env : Env} {x : CheckM α} (h : x.Still env) (s : State)
    (name : String) : (x env s).2.typeOf? env name = s.typeOf? env name := by
  rw [State.typeOf?_eq_scopes, State.typeOf?_eq_scopes, h s]

namespace Checker

section

variable {env : Env} (hload : env.load.Releases) {way : List String}
  (hspares : env.load.SparesScopes way env.space)
include hload hspares

theorem typeOf?_stmt (st : Source.Stmt) {s : State} (hway : s.session.underWay = way)
    (name : String) :
    (stmt st env s).2.typeOf? env name =
      ((bindingsOf st env s).reverse.lookup name).or (s.typeOf? env name) := by
  rw [State.typeOf?_eq_scopes, State.typeOf?_eq_scopes, scopes_stmt hload hspares st hway,
    Scopes.lookup?_bindAll]

theorem typeOf?_stmt_of_not_mem {st : Source.Stmt} {name : String} (h : name ∉ st.declares)
    {s : State} (hway : s.session.underWay = way) :
    (stmt st env s).2.typeOf? env name = s.typeOf? env name := by
  have hbound : name ∉ (bindingsOf st env s).map Prod.fst := by
    rcases names_bindingsOf st env s with hnames | ⟨hnone, _⟩
    · rwa [hnames]
    · simp [hnone]
  have hnone : (bindingsOf st env s).reverse.lookup name = none := by
    apply List.lookup_eq_none_iff.mpr
    intro b hb
    apply bne_iff_ne.mpr
    intro hname
    subst hname
    exact hbound (List.mem_map_of_mem (List.mem_reverse.mp hb))
  rw [typeOf?_stmt hload hspares st hway, hnone]
  rfl

theorem typeOf?_stmts {ss : List Source.Stmt} {name : String} (h : ∀ st ∈ ss, name ∉ st.declares)
    {s : State} (hway : s.session.underWay = way) :
    (collect (stmts ss) env s).2.typeOf? env name = s.typeOf? env name := by
  induction ss generalizing s with
  | nil => rfl
  | cons st ss ih =>
      rcases List.forall_mem_cons.mp h with ⟨hfirst, hrest⟩
      have hstmt := typeOf?_stmt_of_not_mem hload hspares hfirst hway
      have hreleased : s.Released (stmt st env s).2 :=
        (Frame.release env hload).closure.stmt st (.inl trivial) s
      show ((stmt st >>= fun t => collect (stmts ss) >>= fun ts => pure (t :: ts)) env s).2.typeOf?
        env name = _
      rcases hrun : stmt st env s with ⟨r, t⟩
      rw [hrun] at hstmt hreleased
      cases r with
      | error e =>
          rw [bind_apply_of_error hrun]
          exact hstmt
      | ok typed =>
          have hstmts := ih hrest (hreleased.session.underWay.trans hway)
          rw [bind_apply_of_ok hrun, snd_bind_pure, hstmts, hstmt]

end

/--
Checks bind what is declared and nothing else.  After an expression all names of the module have the
types that they had before, in every state and whichever way the check ends.  If the namespace of
the module belongs to packages under way or to none, a statement binds in the innermost scope either
all the names that it declares, or none if it fails before they have types; and every name then has
the type that it was bound to last, or else the type that it had before.  So a name that none of
some statements declares has the same type after them as before.
-/
theorem binds_only_declared (settings : Settings) (packages : Resolver) (depth : Nat)
    (path space : String) (s : State) :
    let env : Env := ⟨settings, path, space, Session.load settings packages depth⟩
    (∀ e : Source.Expr, (expr e env s).2.scopes env = s.scopes env ∧
      ∀ name, (expr e env s).2.typeOf? env name = s.typeOf? env name) ∧
    ((∀ package, Session.Owns settings packages package space → package ∈ s.session.underWay) →
      (∀ st : Source.Stmt,
        (stmt st env s).2.scopes env = (s.scopes env).bindAll (bindingsOf st env s) ∧
        ((bindingsOf st env s).map Prod.fst = st.declares ∨
          bindingsOf st env s = [] ∧ ∃ e, (stmt st env s).1 = .error e) ∧
        ∀ name, (stmt st env s).2.typeOf? env name =
          ((bindingsOf st env s).reverse.lookup name).or (s.typeOf? env name)) ∧
      ∀ (ss : List Source.Stmt) (name : String), (∀ st ∈ ss, name ∉ st.declares) →
        (collect (stmts ss) env s).2.typeOf? env name = s.typeOf? env name) := by
  intro env
  have hload : env.load.Releases := Session.load_releases settings packages depth
  constructor
  · intro e
    have hstill : (expr e).Still env := Stillness.expr hload e
    exact ⟨hstill s, hstill.typeOf? s⟩
  · intro hway
    have hspares : env.load.SparesScopes s.session.underWay env.space := by
      intro package σ hσ
      unfold SymbolTable.scopesOf
      rw [(Session.load_spares depth package (hσ ▸ hway)).kept]
    constructor
    · intro st
      exact ⟨scopes_stmt hload hspares st rfl, names_bindingsOf st env s,
        typeOf?_stmt hload hspares st rfl⟩
    · intro ss name hname
      exact typeOf?_stmts hload hspares hname rfl

theorem owner_of_sums {package : String}
    (h : Session.Owns {} Sample.sums package "sums::sums") : package = "sums" := by
  rcases h with ⟨files, hfiles, file, hfile, name, hname, hspace⟩
  have hentry := List.mem_singleton.mp (PackageIndex.mem_of_filesAt hfiles)
  cases (Prod.mk.inj hentry).2
  cases List.mem_singleton.mp hfile
  cases hname
  have hplain : ':' ∉ "sums".toList := by decide
  exact Session.package_eq_of_space_eq hplain hplain hspace.symm

/-- While a module of a package is checked, a function is bound although its body has a mistake, and
an import of the package itself binds nothing. -/
theorem binds_only_declared_sums :
    let env : Env := ⟨{}, "sums.aura", "sums::sums", Session.load {} Sample.sums 1⟩
    let s := initial {} ((Session.start {}).beginPackage "sums")
    let broken := Sample.returning "broken" [] (Sample.var "missing")
    let imported := Sample.stmt (.importOne (Sample.ident "sums") none)
    Session.Owns {} Sample.sums "sums" env.space ∧
    (stmt broken env s).1.isOk = false ∧
    (stmt broken env s).2.typeOf? env "broken" =
      some (.named ⟨"broken", .isPrivate, ⟨[], .int⟩⟩) ∧
    (stmt imported env s).1.isOk = false ∧
    (stmt imported env s).2.scopes env = s.scopes env := by
  intro env s broken imported
  have hway : ∀ package, Session.Owns {} Sample.sums package "sums::sums" →
      package ∈ s.session.underWay := by
    intro package howns
    rw [owner_of_sums howns]
    exact List.mem_cons_self
  have hstmts := ((binds_only_declared {} Sample.sums 1 "sums.aura" "sums::sums" s).2 hway).1
  have howns : Session.Owns {} Sample.sums "sums" "sums::sums" :=
    ⟨_, rfl, _, List.mem_cons_self, _, rfl, rfl⟩
  exact ⟨howns, by decide, (hstmts broken).2.2 "broken", by decide, (hstmts imported).1⟩

end Checker
end StaticTyping
