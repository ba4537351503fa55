import StaticTyping.Proofs.Methods
import StaticTyping.Proofs.Surface

/-!
# Imported modules

What a file has imported under a local name can be read in two ways: by the local name, which looks
a member up among the names of the import, and through a value, which has the import as a module for
its type.  That module lists functions and classes under names of their own.  So the two ways agree
exactly if every member that is a function or a class, or an instance of one, has the name of that
function or class.
-/

namespace StaticTyping

open CheckM

def Ty.ownName? : Ty → Option String
  | .named f => some f.name
  | .classTy c => some c.name
  | _ => none

def Ty.ownNamed (ty : Ty) (name : String) : Bool :=
  ty.ownName?.all (· == name)

/-!
# Scopes as modules
-/

def Scope.OwnNamed (s : Scope) : Prop :=
  ∀ name ty, s.get? name = some ty → ty.ownNamed name

/-- The same of what a module exports.  Of variables of one name the last one counts. -/
def ModuleTy.OwnNamed (m : ModuleTy) : Prop :=
  ∀ v ∈ m.values, ∀ last ∈ (m.values.filter (·.name == v.name)).getLast?, last.ty.ownNamed v.name

instance (m : ModuleTy) : Decidable m.OwnNamed :=
  inferInstanceAs (Decidable (∀ v ∈ m.values,
    ∀ last ∈ (m.values.filter (·.name == v.name)).getLast?, last.ty.ownNamed v.name))

namespace Scope

variable {s : Scope} {space name : String} {ty : Ty}

def listed (entry : String × Ty) : String × Ty :=
  (entry.2.ownName?.getD entry.1, entry.2)

theorem listed_eq_self (h : ty.ownNamed name) : listed (name, ty) = (name, ty) := by
  unfold Ty.ownNamed at h
  unfold listed
  cases hown : ty.ownName? with
  | none => rfl
  | some own => simp_all

theorem ownNamed_listed (entry : String × Ty) : (listed entry).2.ownNamed (listed entry).1 := by
  unfold listed Ty.ownNamed
  cases entry.2.ownName? <;> simp

theorem mem_members_toModule {b : String × Ty} :
    b ∈ (s.toModule space).members ↔ ∃ entry ∈ s.entries, listed entry = b := by
  unfold ModuleTy.members toModule
  simp only [List.mem_append, List.mem_map, List.mem_filterMap]
  constructor
  · intro h
    rcases h with (⟨f, ⟨entry, hentry, hf⟩, rfl⟩ | ⟨c, ⟨entry, hentry, hc⟩, rfl⟩) |
      ⟨v, ⟨entry, hentry, hv⟩, rfl⟩
    · split at hf
      · cases hf
        exact ⟨_, hentry, rfl⟩
      · cases hf
    · split at hc
      · cases hc
        exact ⟨_, hentry, rfl⟩
      · cases hc
    · split at hv
      · cases hv
      · cases hv
      -- neither a function nor a class: listed as a variable, under the name it is bound by
      next name ty hnamed hclass =>
        cases hv
        refine ⟨_, hentry, ?_⟩
        cases ty with
        | named f => exact (hnamed f rfl).elim
        | classTy c => exact (hclass c rfl).elim
        | _ => rfl
  · intro h
    rcases h with ⟨⟨name, ty⟩, hentry, rfl⟩
    cases ty with
    | named f => exact .inl (.inl ⟨f, ⟨_, hentry, rfl⟩, rfl⟩)
    | classTy c => exact .inl (.inr ⟨c, ⟨_, hentry, rfl⟩, rfl⟩)
    | _ => exact .inr ⟨⟨name, _⟩, ⟨_, hentry, rfl⟩, rfl⟩

theorem OwnNamed.mem_members_iff (h : s.OwnNamed) {b : String × Ty} :
    b ∈ (s.toModule space).members ↔ b ∈ s.entries := by
  have hlisted : ∀ entry ∈ s.entries, listed entry = entry := fun entry hentry =>
    listed_eq_self (h entry.1 entry.2 (Dict.get?_eq_some_of_mem hentry))
  rw [mem_members_toModule]
  constructor
  · intro hb
    rcases hb with ⟨entry, hentry, rfl⟩
    rwa [hlisted entry hentry]
  · intro hb
    exact ⟨b, hb, hlisted b hb⟩

theorem member?_toModule_eq_get?_iff :
    (∀ name, (s.toModule space).member? name = s.get? name) ↔ s.OwnNamed := by
  constructor
  · intro h name ty hty
    have hmember := ModuleTy.mem_members_of_member? ((h name).trans hty)
    rcases mem_members_toModule.mp hmember with ⟨entry, _, hlisted⟩
    have hown := ownNamed_listed entry
    rwa [hlisted] at hown
  · intro h name
    apply Option.ext
    intro ty
    constructor
    · intro hmember
      apply Dict.get?_eq_some_of_mem
      exact h.mem_members_iff.mp (ModuleTy.mem_members_of_member? hmember)
    · intro hget
      have hmem : (name, ty) ∈ (s.toModule space).members :=
        h.mem_members_iff.mpr (Dict.mem_of_get?_eq_some hget)
      rcases ModuleTy.exists_member?_of_mem hmem with ⟨ty', hmember⟩
      have hsame := h.mem_members_iff.mp (ModuleTy.mem_members_of_member? hmember)
      rw [hmember, ← Dict.get?_eq_some_of_mem hsame, hget]

/-!
# Modules as scopes
-/

theorem filterMap_valueFor_map {α : Type} (names : α → String) (types : α → Ty) (xs : List α)
    (name : String) :
    (xs.map fun x => (names x, types x)).filterMap (valueFor name) =
      (xs.filter (names · == name)).map types := by
  rw [List.filterMap_map, ← List.filterMap_eq_map, List.filterMap_filter]
  apply List.filterMap_congr
  intro x _
  simp [valueFor]

theorem get?_ofModule_eq (m : ModuleTy) (name : String) :
    (ofModule m).get? name =
      ((m.values.filter (·.name == name)).getLast?.map (·.ty)).or
        (((m.classes.filter (·.name == name)).getLast?.map .classTy).or
          ((m.functions.filter (·.name == name)).getLast?.map .named)) := by
  unfold ofModule ModuleTy.members
  rw [Dict.get?_insertAll, Dict.get?_empty, Option.or_none, List.filterMap_append,
    List.filterMap_append, filterMap_valueFor_map, filterMap_valueFor_map, filterMap_valueFor_map]
  simp only [List.getLast?_append, List.getLast?_map]

theorem name_of_getLast? {α : Type} {names : α → String} {xs : List α} {name : String} {x : α}
    (h : (xs.filter (names · == name)).getLast? = some x) : x ∈ xs ∧ names x = name := by
  have hmem := List.mem_filter.mp (List.mem_of_getLast? h)
  exact ⟨hmem.1, by simpa using hmem.2⟩

theorem ownNamed_ofModule_iff {m : ModuleTy} : (ofModule m).OwnNamed ↔ m.OwnNamed := by
  constructor
  · intro h v _ last hlast
    apply h
    rw [get?_ofModule_eq, hlast]
    rfl
  · intro h name ty hty
    rw [get?_ofModule_eq, Option.or_eq_some_iff, Option.or_eq_some_iff] at hty
    rcases hty with hvalue | ⟨_, hclass | ⟨_, hfunction⟩⟩
    · rcases Option.map_eq_some_iff.mp hvalue with ⟨v, hlast, rfl⟩
      rcases name_of_getLast? hlast with ⟨hmem, rfl⟩
      exact h v hmem v hlast
    · rcases Option.map_eq_some_iff.mp hclass with ⟨c, hlast, rfl⟩
      rcases name_of_getLast? hlast with ⟨_, rfl⟩
      exact beq_self_eq_true c.name
    · rcases Option.map_eq_some_iff.mp hfunction with ⟨f, hlast, rfl⟩
      rcases name_of_getLast? hlast with ⟨_, rfl⟩
      exact beq_self_eq_true f.name

end Scope

/-!
# Reading a member
-/

namespace CheckM

def foundMember (object : Typed.Expr) (access : Access) (subject : String) (found : Option Ty)
    (name : Ident) : CheckM Member := do
  let ty ← orFail found (.noAttribute subject name.name) name.line
  pure ⟨object, access, ty⟩

end CheckM

namespace Checker

variable {env : Env} {s s' t : State} {e : Source.Expr} {object : Typed.Expr} {access : Access}
  {subject : String} {found : Option Ty}

/-- What reading a member comes to, from what was found under its name. -/
def reading (object : Typed.Expr) (access : Access) (subject : String) (found : Option Ty)
    (name : Ident) (span : Span) : Except Fault Typed.Expr :=
  match found with
  | some ty => .ok ⟨.get object name access, ty, span⟩
  | none => .error ⟨.noAttribute subject name.name, name.line⟩

theorem getExpr_found {check : CheckM Member} {x : Ident}
    (h : check env s = foundMember object access subject found x env t) (span : Span) :
    getExpr check x span env s = (reading object access subject found x span, t) := by
  unfold getExpr reading
  cases found with
  | none => exact bind_apply_of_error h
  | some ty => exact bind_apply_of_ok h

theorem expr_get_value (hcheck : expr e env s = (.ok object, s'))
    (hname : ∀ var, e.kind = .var var → env.imported? s.session.symbols var.name = none) {x : Ident}
    (hfound : ∀ exprs, valueMember object x env { s' with exprs := exprs } =
      foundMember object access subject found x env { t with exprs := exprs })
    (hlevel : t.exprs = s'.exprs) (span : Span) :
    expr ⟨.get e x, span⟩ env s = (reading object access subject found x span, t) := by
  have hexprs : s'.exprs = s.exprs := by
    have h := (expr_standalone env e).level s
    rw [hcheck] at h
    exact h
  have hmember : member e (expr e) x env { s with exprs := s.exprs.push .other } =
      foundMember object access subject found x env { t with exprs := s.exprs.push .other } :=
    ((member_value { s with exprs := s.exprs.push .other } (expr e) x hname).trans
      (bind_apply_of_ok (expr_moved hcheck _))).trans (hfound _)
  have hrun : expr ⟨.get e x, span⟩ env s =
      (reading object access subject found x span, { t with exprs := s.exprs }) :=
    inExpr_apply (getExpr_found hmember span)
  rw [hrun, ← hexprs, ← hlevel]

theorem expr_get_import {var : Ident} {varSpan : Span} {scope : Scope}
    (hscope : env.imported? s.session.symbols var.name = some scope) (x : Ident) (span : Span) :
    expr ⟨.get ⟨.var var, varSpan⟩ x, span⟩ env s =
      (reading ⟨.var var, .moduleTy (scope.toModule var.name), var.span⟩ (.member var.name) var.name
        (scope.get? x.name) x span, s) := by
  have hfound : ∀ exprs, importNamed? ⟨.var var, varSpan⟩ env { s with exprs := exprs } =
      (.ok (some (var, scope)), { s with exprs := exprs }) := by
    intro exprs
    show (Except.ok ((env.imported? s.session.symbols var.name).map _), _) = _
    rw [hscope]
    rfl
  have hmember : member ⟨.var var, varSpan⟩ (expr ⟨.var var, varSpan⟩) x env
      { s with exprs := s.exprs.push .other } =
        importMember var x scope env { s with exprs := s.exprs.push .other } :=
    bind_apply_of_ok (hfound _)
  exact inExpr_apply (getExpr_found hmember span)

theorem expr_get_module {m : ModuleTy} (hcheck : expr e env s = (.ok object, s'))
    (hname : ∀ var, e.kind = .var var → env.imported? s.session.symbols var.name = none)
    (hobject : object.ty = .moduleTy m) (x : Ident) (span : Span) :
    expr ⟨.get e x, span⟩ env s =
      (reading object (.member m.name) object.ty.text (m.member? x.name) x span, s') := by
  apply expr_get_value hcheck hname
  · intro exprs
    unfold valueMember
    rw [hobject]
    show (orFail (m.member? x.name) (missing object x) x.line >>= _) env _ = _
    unfold missing
    rw [hobject]
    rfl
  · rfl

end Checker

/-!
# The theorem
-/

theorem Library.ownNamed_standard {package : String} {m : ModuleTy}
    (h : Library.standard? package = some m) : m.OwnNamed :=
  Library.of_standard? (P := ModuleTy.OwnNamed) (by decide) h

namespace Checker

/--
The two ways to read an import agree for every name exactly if the module exports functions and
classes under the names of their own.  If it does, a member by the local name of the import and a
member of a value that has the import for its type have the same type and the same access, or both
are missing, in every state.  All standard packages are like that.
-/
theorem import_reads_agree (m : ModuleTy) :
    (∀ (t : SymbolTable) (file localName : String),
      ∃ scope, (t.addModule file localName m).imported? file localName = some scope ∧
        ((∀ name, (scope.toModule localName).member? name = scope.get? name) ↔ m.OwnNamed)) ∧
    (m.OwnNamed →
      ∀ (env : Env) (s s' : State) (var : Ident) (varSpan : Span) (e : Source.Expr)
        (object : Typed.Expr),
        env.imported? s.session.symbols var.name = some (.ofModule m) →
        expr e env s = (.ok object, s') →
        (∀ v, e.kind = .var v → env.imported? s.session.symbols v.name = none) →
        object.ty = .moduleTy ((Scope.ofModule m).toModule var.name) →
        ∀ (x : Ident) (span : Span),
          expr ⟨.get ⟨.var var, varSpan⟩ x, span⟩ env s =
            (reading ⟨.var var, object.ty, var.span⟩ (.member var.name) var.name
              ((Scope.ofModule m).get? x.name) x span, s) ∧
          expr ⟨.get e x, span⟩ env s =
            (reading object (.member var.name) object.ty.text ((Scope.ofModule m).get? x.name) x
              span, s')) ∧
    ∀ package, Library.standard? package = some m → m.OwnNamed := by
  refine ⟨?_, ?_, ?_⟩
  · intro t file localName
    exact ⟨.ofModule m, t.imported?_addModule_self file localName m,
      Scope.member?_toModule_eq_get?_iff.trans Scope.ownNamed_ofModule_iff⟩
  · intro hm env s s' var varSpan e object hscope hcheck hname hobject x span
    have hsame : ((Scope.ofModule m).toModule var.name).member? x.name =
        (Scope.ofModule m).get? x.name :=
      Scope.member?_toModule_eq_get?_iff.mpr (Scope.ownNamed_ofModule_iff.mpr hm) x.name
    constructor
    · rw [hobject]
      exact expr_get_import hscope x span
    · rw [← hsame]
      exact expr_get_module hcheck hname hobject x span
  · intro package
    exact Library.ownNamed_standard

end Checker

namespace Sample

/-- A package that exports a class and a variable that holds an instance of it. -/
def points : PackageIndex :=
  ⟨Dict.empty.insert "src/points" (.files [file "points" [
    stmt (.classDecl ⟨ident "Point", .isPublic, [⟨ident "x", .int, false, none⟩], [], []⟩),
    stmt (.binding ⟨ident "origin", false, none,
      some (expr (.call (var "Point") [⟨none, expr (.int 0)⟩] default))⟩)]])⟩

def holdingImport (package localName : String) : List Source.Stmt :=
  [stmt (.importOne (ident package) (some (ident localName))),
    stmt (.binding ⟨ident "held", false, none, some (var localName)⟩)]

/-- A file that reads the variable of the package as a member of something. -/
def readingOrigin (object : String) : Source.File :=
  file "main" (holdingImport "points" "points" ++
    [stmt (.binding ⟨ident "start", false, none, some (get (var object) "origin")⟩)])

def numbersState : State :=
  (collect (Checker.stmts (holdingImport "aura/math" "numbers")) mainEnv fresh).2

def numbers (name : String) : Typed.Expr :=
  ⟨.var (ident name), .moduleTy ((Scope.ofModule Library.math).toModule "numbers"), default⟩

end Sample

/-- A standard package that exports a variable, read by its local name and through a value. -/
theorem Checker.import_reads_agree_math :
    expr (Sample.get (Sample.var "numbers") "PI") Sample.mainEnv Sample.numbersState =
      (.ok ⟨.get (Sample.numbers "numbers") (Sample.ident "PI") (.member "numbers"), .float,
        default⟩, Sample.numbersState) ∧
    expr (Sample.get (Sample.var "held") "PI") Sample.mainEnv Sample.numbersState =
      (.ok ⟨.get (Sample.numbers "held") (Sample.ident "PI") (.member "numbers"), .float, default⟩,
        Sample.numbersState) ∧
    expr (Sample.get (Sample.var "held") "TAU") Sample.mainEnv Sample.numbersState =
      (.error ⟨.noAttribute "module numbers" "TAU", 0⟩, Sample.numbersState) := by
  have hname : ∀ v, (Sample.var "held").kind = .var v →
      Sample.mainEnv.imported? Sample.numbersState.session.symbols v.name = none := by
    intro v hv
    cases hv
    rfl
  have hreads := (import_reads_agree Library.math).2.1 (by decide) Sample.mainEnv
    Sample.numbersState Sample.numbersState (Sample.ident "numbers") default (Sample.var "held")
    (Sample.numbers "held") rfl rfl hname rfl
  have hpi := hreads (Sample.ident "PI") default
  exact ⟨hpi.1, hpi.2, (hreads (Sample.ident "TAU") default).2⟩

/--
An instance of a class, exported by a variable.  The scope of the import has the variable, and the
module that the scope makes does not, so a value that holds the import has no member of its name.
-/
theorem Session.import_reads_differ :
    ∃ m c errors,
      (after {} Sample.points [Sample.readingOrigin "points"]).compiled.get? "points" = some m ∧
      (Scope.ofModule m).get? "origin" = some (.classTy c) ∧
      ((Scope.ofModule m).toModule "points").member? "origin" = none ∧
      (check {} Sample.points (Sample.readingOrigin "points") (start {})).1.isOk = true ∧
      (check {} Sample.points (Sample.readingOrigin "held") (start {})).1 = .error errors ∧
      errors.errors.map (·.message) = ["'module points' has no attribute 'origin'"] :=
  ⟨_, ⟨"Point", [⟨"x", .int, false, none⟩], [], [], .isPublic⟩, _, rfl, rfl, rfl, rfl, rfl, rfl⟩

end StaticTyping
