import StaticTyping.Proofs.Frame.Passes
import StaticTyping.Proofs.ImportedModules
import StaticTyping.Proofs.Order.Imported
import StaticTyping.Proofs.Packages

/-!
# Methods of builtin types

The methods of texts, lists and errors are looked for under the local name by which the file sees
their standard package.  The package comes in on demand, unless the name is taken.  So the methods
are those of the package exactly if the name is free or stands for the package.  That stays so as
long as no import, at any depth, gives the name to something else.
-/

namespace StaticTyping

open CheckM

/-!
# Names kept for standard packages
-/

namespace SymbolTable

variable {t u : SymbolTable} {file : String} {p : String × String}

/-- A file keeps the names of all packages that are imported on demand. -/
def ReservesAll (t : SymbolTable) (file : String) : Prop :=
  ∀ p ∈ Library.onDemand, t.Reserves file p

theorem ReservesAll.of_importsOf_eq (h : t.ReservesAll file)
    (himports : u.importsOf file = t.importsOf file) : u.ReservesAll file := by
  intro p hp scope hscope
  apply h p hp scope
  unfold imported? at hscope ⊢
  rwa [← himports]

theorem ReservesAll.addModule (h : t.ReservesAll file) {localName : String} {m : ModuleTy}
    (hm : ∀ p ∈ Library.onDemand, p.2 = localName → Library.standard? p.1 = some m) :
    (t.addModule file localName m).ReservesAll file := by
  intro p hp
  exact (h p hp).addModule file (hm p hp)

theorem ReservesAll.addStandard (h : t.ReservesAll file) (hp : p ∈ Library.onDemand) :
    (t.addStandard file p.1 p.2).ReservesAll file := by
  unfold SymbolTable.addStandard
  split
  next m _ hm =>
    exact h.addModule fun q hq hname => Library.standard?_of_localName_eq hq hp hname hm
  · exact h

theorem imported?_addStandard_self (t : SymbolTable) (file localName : String) {package : String}
    {m : ModuleTy} (hm : Library.standard? package = some m) :
    (t.addStandard file package localName).imported? file localName =
      some ((t.imported? file localName).getD (.ofModule m)) := by
  cases hscope : t.imported? file localName with
  | some scope =>
      rw [addStandard_eq_self (by simp [hscope]), hscope]
      rfl
  | none => simp [SymbolTable.addStandard, hscope, hm]

end SymbolTable

/-!
# Reading a method
-/

namespace Checker

variable {env : Env} {s s' : State} {e : Source.Expr} {object : Typed.Expr}
  {package localName : String} {m : ModuleTy}

theorem reading_injective {access : Access} {subject : String} {found found' : Option Ty}
    {name : Ident} {span : Span}
    (h : reading object access subject found name span =
      reading object access subject found' name span) : found = found' := by
  cases found <;> cases found' <;> cases h <;> rfl

theorem valueMember_builtin (hobject : object.ty.builtinPackage? = some (package, localName))
    (hm : Library.standard? package = some m) (x : Ident) (env : Env) (s : State) :
    valueMember object x env s =
      foundMember object (.builtin localName) object.ty.text
        (((env.imported? s.session.symbols localName).getD (.ofModule m)).get? x.name) x env
        (onSymbols (·.addStandard env.file package localName) s) := by
  have hscope : imported? localName env (onSymbols (·.addStandard env.file package localName) s) =
      (.ok (some ((env.imported? s.session.symbols localName).getD (.ofModule m))),
        onSymbols (·.addStandard env.file package localName) s) :=
    congrArg (fun found => (Except.ok found, _))
      (s.session.symbols.imported?_addStandard_self env.file localName hm)
  rw [Pairing.valueMember_of_plain x (Ty.isPlain_of_builtinPackage? hobject), hobject]
  exact (bind_apply_of_ok (importStandard_apply package localName env s)).trans
    (bind_apply_of_ok hscope)

theorem expr_get_builtin (hcheck : expr e env s = (.ok object, s'))
    (hname : ∀ var, e.kind = .var var → env.imported? s.session.symbols var.name = none)
    (hobject : object.ty.builtinPackage? = some (package, localName))
    (hm : Library.standard? package = some m) (x : Ident) (span : Span) :
    expr ⟨.get e x, span⟩ env s =
      (reading object (.builtin localName) object.ty.text
        (((env.imported? s'.session.symbols localName).getD (.ofModule m)).get? x.name) x span,
        onSymbols (·.addStandard env.file package localName) s') := by
  apply expr_get_value hcheck hname
  · exact fun exprs => valueMember_builtin hobject hm x env { s' with exprs := exprs }
  · rfl

theorem reads_package_iff (hcheck : expr e env s = (.ok object, s'))
    (hname : ∀ var, e.kind = .var var → env.imported? s.session.symbols var.name = none)
    (hobject : object.ty.builtinPackage? = some (package, localName))
    (hm : Library.standard? package = some m) :
    (∀ x span, (expr ⟨.get e x, span⟩ env s).1 =
      reading object (.builtin localName) object.ty.text (m.member? x.name) x span) ↔
    s'.session.symbols.Reserves env.file (package, localName) := by
  have hread := expr_get_builtin hcheck hname hobject hm
  constructor
  · intro h scope hscope
    refine ⟨m, hm, Dict.ext_get? fun name => ?_⟩
    -- what is read by each name determines what the local name stands for
    have hsame := h ⟨name, default⟩ default
    rw [hread] at hsame
    have hfound := reading_injective hsame
    rw [Library.get?_ofModule_standard hm, ← hfound]
    have htaken : env.imported? s'.session.symbols localName = some scope := hscope
    rw [htaken]
    rfl
  · intro h x span
    rw [hread, ← Library.get?_ofModule_standard hm]
    have hscope :
        (env.imported? s'.session.symbols localName).getD (.ofModule m) = .ofModule m := by
      cases hfound : env.imported? s'.session.symbols localName with
      | none => rfl
      | some scope =>
          rcases h scope hfound with ⟨m', hm', rfl⟩
          cases hm.symm.trans hm'
          rfl
    rw [hscope]

end Checker

/-!
# Imports that keep the names
-/

def Source.Import.reserving (i : Source.Import) : Bool :=
  Library.onDemand.all i.spares

/-- All imports, at any depth, are like that. -/
def Source.Condition.reserving : Source.Condition where
  stmt
    | .importOne package alias? => Source.Import.reserving ⟨package, alias?, default⟩
    | .importMany imports => imports.all Source.Import.reserving
    | _ => true

theorem Source.Import.reserving_iff {i : Source.Import} :
    i.reserving ↔ ∀ p ∈ Library.onDemand, p.2 = i.space → i.package.name = p.1 := by
  unfold reserving
  rw [List.all_eq_true]
  exact forall₂_congr fun p _ => Source.Import.spares_iff

structure Loader.SparesImports (load : Loader) (file : String) : Prop where
  standard : ∀ {package m}, Library.standard? package = some m → ∀ σ, load package σ = (.ok m, σ)
  imports : ∀ package σ, (load package σ).2.symbols.importsOf file = σ.symbols.importsOf file

theorem CheckM.importModule_reserves {env : Env} (hload : env.load.SparesImports env.file)
    {i : Source.Import} (hi : i.reserving) {s : State}
    (h : s.session.symbols.ReservesAll env.file) :
    (importModule i env s).2.session.symbols.ReservesAll env.file := by
  apply session_importModule (P := fun τ => τ.symbols.ReservesAll env.file)
  · exact h.of_importsOf_eq (hload.imports i.package.name s.session)
  · intro m τ hrun hτ
    apply hτ.addModule
    intro p hp hspace
    rcases Library.standard?_of_mem_onDemand hp with ⟨m', hm'⟩
    have hstandard := hload.standard hm' s.session
    rw [← Source.Import.reserving_iff.mp hi p hp hspace, hrun] at hstandard
    cases hstandard
    exact hm'

def Frame.reserving (env : Env) (hload : env.load.SparesImports env.file) :
    Frame env .reserving where
  rel s t := s.session.symbols.ReservesAll env.file → t.session.symbols.ReservesAll env.file
  imports := False
  one hi := .inr fun span _ => importModule_reserves (i := ⟨_, _, span⟩) hload hi
  many his := .inr fun i hi _ => importModule_reserves hload (List.all_eq_true.mp his i hi)
  refl _ h := h
  trans h h' := h' ∘ h
  declare _ _ _ h := h
  standard hp s h := by
    rw [importStandard_apply]
    exact h.addStandard (Library.mem_onDemand hp)
  importModule himports := himports.elim
  inScope {s t} h hs :=
    (h hs).of_importsOf_eq (t.session.symbols.importsOf_leave env.space env.file)
  inStmt h := h
  inExpr h := h
  inClass h := h
  report himports := himports.elim

theorem Frame.reports_reserving (env : Env) (hload : env.load.SparesImports env.file) :
    (Frame.reserving env hload).Reports := by
  intro d s
  exact id

/-!
# Sessions
-/

def Frame.elsewhere (env : Env) {path : String} (hfile : path ≠ env.file)
    (hload : ∀ package (σ : Session),
      (env.load package σ).2.symbols.importsOf path = σ.symbols.importsOf path) :
    Frame env {} where
  rel s t := t.session.symbols.importsOf path = s.session.symbols.importsOf path
  imports := True
  one _ := .inl trivial
  many _ := .inl trivial
  refl _ := rfl
  trans h h' := h'.trans h
  declare _ _ _ := rfl
  standard {_ package localName} _ s := by
    rcases importStandard_cases package localName env s with h | ⟨m, _, h⟩
    · rw [h]
    · rw [h]
      exact s.session.symbols.importsOf_addModule_of_ne localName m hfile
  importModule _ i s := CheckM.session_importModule
    (P := fun τ => τ.symbols.importsOf path = s.session.symbols.importsOf path)
    (hload i.package.name s.session)
    fun m τ _ h => (τ.symbols.importsOf_addModule_of_ne i.space m hfile).trans h
  inScope {s t} h := (t.session.symbols.importsOf_leave env.space path).trans h
  inStmt h := h
  inExpr h := h
  inClass h := h
  report _ _ _ := rfl

namespace Session

variable {settings : Settings} {packages : Resolver} {path : String}
  (hpath : ∀ package, ¬OwnsFile settings packages package path)
include hpath

theorem load_sparesImports (depth : Nat) : (load settings packages depth).SparesImports path where
  standard hm _ := load_of_standard depth hm
  imports := by
    apply load_symbols (R := fun t u => u.importsOf path = t.importsOf path) (P := (path ≠ ·))
    · exact fun _ => rfl
    · exact fun h h' => h'.trans h
    · exact fun env hfile hload => ⟨Frame.elsewhere env hfile hload, trivial, id⟩
    · intro package files hfiles file hfile hsame
      exact hpath package ⟨files, hfiles, file, hfile, hsame.symm⟩

theorem after_reserves {files : List Source.File}
    (hfiles : ∀ file ∈ files, file.path = path → Source.Met (file.meets .reserving)) :
    (after settings packages files).symbols.ReservesAll path := by
  have hload := load_sparesImports hpath packages.depth
  apply after_induction (P := fun σ => σ.symbols.ReservesAll path)
  · intro p _ scope hscope
    unfold SymbolTable.imported? at hscope
    rw [start_imports] at hscope
    cases hscope
  · intro file hfile σ hσ
    by_cases hsame : file.path = path
    · subst hsame
      exact Frame.runFile_of_meets (P := fun σ => σ.symbols.ReservesAll file.path)
        (hfiles file hfile rfl) hσ fun _ =>
          ⟨Frame.reserving _ hload, Frame.reports_reserving _ hload, id⟩
    · apply hσ.of_importsOf_eq
      exact runFile_symbols (R := fun t u => u.importsOf path = t.importsOf path)
        (P := (path ≠ ·)) (fun _ => rfl) (fun h h' => h'.trans h)
        (fun env hfile hload => ⟨Frame.elsewhere env hfile hload, trivial, id⟩) settings
        hload.imports (fun h => hsame h.symm) σ

end Session

/-!
# The theorem
-/

namespace Checker

/--
In every state, the methods of a text, a list or an error are those of the standard package for its
type, and none besides, exactly if the file has imported nothing else under the local name of the
package.  A file that no package has begins with these names kept for the packages, unless it has
given one away in an earlier check.  If its imports, at any depth, do not give them away, then all
that either pass does with a statement keeps them, whichever way it ends, so that all methods that
are read are those of the package.
-/
theorem builtin_methods_standard_iff (settings : Settings) (packages : Resolver)
    (path : String) :
    (∀ (env : Env) (s s' : State) (e : Source.Expr) (object : Typed.Expr)
      (package localName : String),
      expr e env s = (.ok object, s') →
      (∀ v, e.kind = .var v → env.imported? s.session.symbols v.name = none) →
      object.ty.builtinPackage? = some (package, localName) →
      ∃ m, Library.standard? package = some m ∧
        ((∀ x span, (expr ⟨.get e x, span⟩ env s).1 =
          reading object (.builtin localName) object.ty.text (m.member? x.name) x span) ↔
        s'.session.symbols.Reserves env.file (package, localName))) ∧
    ((∀ package, ¬Session.OwnsFile settings packages package path) →
      (∀ files : List Source.File,
        (∀ file ∈ files, file.path = path → file.meets .reserving) →
        (Session.after settings packages files).symbols.ReservesAll path) ∧
      ∀ (depth : Nat) (space : String) (s : State), s.session.symbols.ReservesAll path →
        let env : Env := ⟨settings, path, space, Session.load settings packages depth⟩
        (∀ st : Source.Stmt, st.meets .reserving →
          (stmt st env s).2.session.symbols.ReservesAll path ∧
          (∀ phase ∈ phases, ∀ x, phase st = some x →
            (x env s).2.session.symbols.ReservesAll path) ∧
          ∀ item, item.StemsFrom st →
            (finishItem item env s).2.session.symbols.ReservesAll path) ∧
        ∀ e : Source.Expr, e.meets .reserving →
          (expr e env s).2.session.symbols.ReservesAll path ∧
          ∀ object s' package localName m, expr e env s = (.ok object, s') →
            (∀ v, e.kind = .var v → env.imported? s.session.symbols v.name = none) →
            object.ty.builtinPackage? = some (package, localName) →
            Library.standard? package = some m →
            ∀ x span, (expr ⟨.get e x, span⟩ env s).1 =
              reading object (.builtin localName) object.ty.text (m.member? x.name) x span) := by
  constructor
  · intro env s s' e object package localName hcheck hname hobject
    rcases Library.standard?_of_mem_onDemand (Library.mem_onDemand hobject) with ⟨m, hm⟩
    exact ⟨m, hm, reads_package_iff hcheck hname hobject hm⟩
  · intro hpath
    constructor
    · exact fun files hfiles => Session.after_reserves hpath hfiles
    · intro depth space s hs env
      let F := Frame.reserving env (Session.load_sparesImports hpath depth)
      constructor
      · intro st hst
        refine ⟨F.closure.stmt st (.inr hst) s hs, ?_, ?_⟩
        · intro phase hphase x hx
          exact F.phase_of_mem hphase hst hx s hs
        · intro item hitem
          exact Frame.finishItem_of_stemsFrom (F := F) hst hitem s hs
      · intro e he
        have hkept := F.closure.expr e (.inr he) s hs
        constructor
        · exact hkept
        · intro object s' package localName m hcheck hname hobject hm
          rw [hcheck] at hkept
          exact (reads_package_iff hcheck hname hobject hm).mpr
            (hkept (package, localName) (Library.mem_onDemand hobject))

end Checker

namespace Sample

def toolsFile : Source.File :=
  file "tools" [stmt (.function
    ⟨ident "shout", .isPublic, [⟨ident "text", .string, false, none⟩], some .int⟩
    (block [stmt (.ret (some (expr (.int 1))))]))]

/-- A package of that file. -/
def tools : PackageIndex :=
  ⟨Dict.empty.insert "src/tools" (.files [toolsFile])⟩

def toolsEnv : Env :=
  ⟨{}, "main.aura", "main", Session.load {} tools 1⟩

def importingTools : Source.Stmt :=
  stmt (.importMany [⟨ident "tools", none, default⟩, ⟨ident "aura/strings", none, default⟩])

def word : Source.Expr :=
  expr (.string "abc")

/-- A file that imports the package under a name and calls a method of a text. -/
def shouting (localName method : String) : Source.File :=
  file "main" [stmt (.importOne (ident "tools") (some (ident localName))),
    stmt (.binding ⟨ident "n", false, none, some (expr (.call (get word method) [] default))⟩)]

end Sample

/-- With the imports under their own names, a text has the methods of the package and no other. -/
theorem Checker.builtin_methods_standard_iff_tools :
    let s := (stmt Sample.importingTools Sample.toolsEnv (initial {} (Session.start {}))).2
    ∃ ty, Library.strings.member? "length" = some ty ∧
      (expr (Sample.get Sample.word "length") Sample.toolsEnv s).1 =
        .ok ⟨.get ⟨.string "abc", .string, default⟩ (Sample.ident "length") (.builtin "strings"),
          ty, default⟩ ∧
      (expr (Sample.get Sample.word "shout") Sample.toolsEnv s).1 =
        .error ⟨.noAttribute "String" "shout", 0⟩ := by
  have hpath : ∀ package, ¬Session.OwnsFile {} Sample.tools package "main.aura" := by
    intro package howns
    rcases howns with ⟨files, hfiles, file, hfile, hpath⟩
    cases congrArg Prod.snd (List.mem_singleton.mp (PackageIndex.mem_of_filesAt hfiles))
    cases List.mem_singleton.mp hfile
    exact absurd hpath (by decide)
  have hlaws := (builtin_methods_standard_iff {} Sample.tools "main.aura").2 hpath
  have hstart := hlaws.1 [] (List.forall_mem_nil _)
  have himports := (hlaws.2 1 "main" (initial {} (Session.start {})) hstart).1
    Sample.importingTools rfl
  have hreads := ((hlaws.2 1 "main" _ himports.1).2 Sample.word rfl).2 _ _ "aura/strings" "strings"
    Library.strings rfl (fun _ hvar => nomatch hvar) rfl rfl
  exact ⟨_, rfl, hreads (Sample.ident "length") default, hreads (Sample.ident "shout") default⟩

/--
A package that is imported under the name of another.  Texts lose the methods that they should have,
and get one that they should not have.
-/
theorem Session.builtin_methods_replaced :
    ∃ errors,
      (Library.strings.member? "length").isSome = true ∧
      (check {} Sample.tools (Sample.shouting "strings" "length") (start {})).1 = .error errors ∧
      errors.errors.map (·.message) = ["'String' has no attribute 'length'"] ∧
      Library.strings.member? "shout" = none ∧
      (check {} Sample.tools (Sample.shouting "strings" "shout") (start {})).1.isOk = true ∧
      (check {} Sample.tools (Sample.shouting "tools" "length") (start {})).1.isOk = true :=
  ⟨_, rfl, rfl, rfl, rfl, rfl, rfl⟩

end StaticTyping
