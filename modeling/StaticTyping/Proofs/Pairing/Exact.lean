import StaticTyping.Proofs.Namespaces
import StaticTyping.Proofs.Pairing.Session

/-!
# Files that see the same in two sessions

Of a session a file sees three things: the namespace of its module, the builtin functions, and its
own imports.  These are also the only tables that its check changes.  In sessions that agree on
them a file comes to the same, provided that loading goes on to agree.
-/

namespace StaticTyping

open CheckM Source

/-!
# Tables
-/

namespace SymbolTable

structure Agree (space file : String) (t t' : SymbolTable) : Prop where
  scopes : t.scopesOf space = t'.scopesOf space
  imports : t.importsOf file = t'.importsOf file

/-- A table that has changed in one namespace and in the imports of one file at most. -/
structure ChangedAt (space file : String) (t u : SymbolTable) : Prop where
  scopes : ∀ {other}, other ≠ space → u.scopesOf other = t.scopesOf other
  imports : ∀ {other}, other ≠ file → u.importsOf other = t.importsOf other

variable {t t' : SymbolTable} {space file : String}

theorem lookup?_congr (h : t.scopesOf space = t'.scopesOf space) (name : String) :
    t.lookup? space name = t'.lookup? space name := by
  rw [t.lookup?_eq_scopesOf, t'.lookup?_eq_scopesOf, h]

theorem scopesOf_leave (t : SymbolTable) (space : String) :
    (t.leave space).scopesOf space = (t.scopesOf space).pop := by
  unfold leave
  split
  next h => simp [scopesOf, h, Scopes.pop]
  next s _ h => simp [scopesOf, h, setScopes]
  next h =>
    unfold scopesOf
    rw [h]
    rfl

theorem scopesOf_leave_of_ne (t : SymbolTable) {space other : String} (h : other ≠ space) :
    (t.leave space).scopesOf other = t.scopesOf other := by
  unfold scopesOf
  rw [t.get?_leave_of_ne h]

theorem importsOf_addModule (t : SymbolTable) (file localName : String) (m : ModuleTy) :
    (t.addModule file localName m).importsOf file =
      (t.importsOf file).insert localName (.ofModule m) := by
  simp [addModule, importsOf]

theorem importsOf_addModule_of_ne (t : SymbolTable) {file other : String} (localName : String)
    (m : ModuleTy) (h : other ≠ file) :
    (t.addModule file localName m).importsOf other = t.importsOf other := by
  simp [addModule, importsOf, Dict.get?_insert_of_ne _ _ h]

namespace Agree

theorem imported? (h : t.Agree space file t') (name : String) :
    t.imported? file name = t'.imported? file name := by
  unfold SymbolTable.imported?
  rw [h.imports]

theorem bind (h : t.Agree space file t') (name : String) (ty : Ty) :
    (t.bind space name ty).Agree space file (t'.bind space name ty) where
  scopes := by simp [SymbolTable.bind, h.scopes]
  imports := h.imports

theorem enter (h : t.Agree space file t') :
    (t.enter space).Agree space file (t'.enter space) where
  scopes := by simp [SymbolTable.enter, h.scopes]
  imports := h.imports

theorem leave (h : t.Agree space file t') :
    (t.leave space).Agree space file (t'.leave space) where
  scopes := by rw [scopesOf_leave, scopesOf_leave, h.scopes]
  imports := by
    unfold importsOf
    rw [imports_leave, imports_leave]
    exact h.imports

theorem addModule (h : t.Agree space file t') (localName : String) (m : ModuleTy) :
    (t.addModule file localName m).Agree space file (t'.addModule file localName m) where
  scopes := h.scopes
  imports := by rw [importsOf_addModule, importsOf_addModule, h.imports]

theorem addStandard (h : t.Agree space file t') (package localName : String) :
    (t.addStandard file package localName).Agree space file
      (t'.addStandard file package localName) := by
  unfold SymbolTable.addStandard
  rw [h.imported?]
  split
  · exact h.addModule _ _
  · exact h

end Agree

namespace ChangedAt

theorem setScopes (t : SymbolTable) (space file : String) (s : Scopes) :
    t.ChangedAt space file (t.setScopes space s) where
  scopes hother := t.scopesOf_setScopes_of_ne s hother
  imports _ := rfl

theorem leave (t : SymbolTable) (space file : String) :
    t.ChangedAt space file (t.leave space) where
  scopes hother := t.scopesOf_leave_of_ne hother
  imports _ := by
    unfold importsOf
    rw [imports_leave]

theorem addModule (t : SymbolTable) (space file localName : String) (m : ModuleTy) :
    t.ChangedAt space file (t.addModule file localName m) where
  scopes _ := rfl
  imports hother := t.importsOf_addModule_of_ne localName m hother

theorem addStandard (t : SymbolTable) (space file package localName : String) :
    t.ChangedAt space file (t.addStandard file package localName) := by
  unfold SymbolTable.addStandard
  split
  · exact addModule t space file localName _
  · exact ⟨fun _ => rfl, fun _ => rfl⟩

end ChangedAt
end SymbolTable

/-!
# Files
-/

/-- Sessions in a relation, and runs that give the same.  The first run may be one that need not
succeed. -/
def Likeness.exact (free : Prop) (rel : Session → Session → Prop) : Likeness where
  cut := .nothing
  cut' := .nothing
  source := false
  free := free
  strict := True
  rel := rel
  report := Eq
  dropped h := nomatch h
  plain _ := ⟨rfl, rfl⟩
  filled h := h
  reported h := congrArg _ h
  push h hd := by rw [h, hd trivial]
  extend h he := by rw [h, he]

/-- Sessions in a relation agree on what a file sees, and stay in it as the file changes that. -/
structure Session.SeenAlike (rel : Session → Session → Prop) (prelude space file : String) :
    Prop where
  seen : ∀ {σ σ' : Session}, rel σ σ' → σ.symbols.Agree space file σ'.symbols
  prelude : ∀ {σ σ' : Session}, rel σ σ' →
    σ.symbols.scopesOf prelude = σ'.symbols.scopesOf prelude
  change : ∀ {σ σ' : Session} {t t' : SymbolTable}, rel σ σ' →
    σ.symbols.ChangedAt space file t → σ'.symbols.ChangedAt space file t' →
    t.Agree space file t' → rel { σ with symbols := t } { σ' with symbols := t' }

structure Source.Condition.Imports (c : Source.Condition) (imports : String → Prop) : Prop where
  one : ∀ {package alias?}, Met (c.stmt (.importOne package alias?)) → imports package.name
  many : ∀ {packages}, Met (c.stmt (.importMany packages)) →
    ∀ i ∈ packages, imports i.package.name

theorem Source.Condition.Imports.all (c : Source.Condition) : c.Imports fun _ => True :=
  ⟨fun _ => trivial, fun _ _ _ => trivial⟩

section

variable {free : Prop} {rel : Session → Session → Prop} {settings : Settings} {load load' : Loader}
  {c : Source.Condition} {imports : String → Prop}

def Pairing.exact (free : Prop) {settings : Settings} {file space : String}
    (h : Session.SeenAlike rel settings.preludeSpace space file) (hc : c.Imports imports)
    {load load' : Loader} (hload : ∀ {σ σ'} package, imports package → rel σ σ' →
      (Likeness.exact free rel).Loads (load package σ) (load' package σ')) : Pairing where
  toLikeness := .exact free rel
  env := ⟨settings, file, space, load⟩
  env' := ⟨settings, file, space, load'⟩
  condition := c
  imports := imports
  one := hc.one
  many := hc.many
  written _ := rfl
  blocks _ hsource := nomatch hsource
  conds _ hsource := nomatch hsource
  lambdas _ hsource := nomatch hsource
  functions _ hsource := nomatch hsource
  methods _ hsource := nomatch hsource
  kept := .inl rfl
  defaults := .inl ⟨rfl, rfl⟩
  file _ := rfl
  lookup hσ name := by rw [SymbolTable.lookup?_congr (h.seen hσ).scopes name]; rfl
  prelude hσ name := by rw [SymbolTable.lookup?_congr (h.prelude hσ) name]; rfl
  imported hσ name := by rw [(h.seen hσ).imported? name]; rfl
  bind {_ _ ty ty'} name hσ hty := by
    have hty : ty = ty' := by
      rw [← ty.strip_nothing, ← ty'.strip_nothing]
      exact hty
    cases hty
    exact h.change hσ (.setScopes _ _ _ _) (.setScopes _ _ _ _) ((h.seen hσ).bind _ _)
  enter hσ := h.change hσ (.setScopes _ _ _ _) (.setScopes _ _ _ _) (h.seen hσ).enter
  leave hσ := h.change hσ (.leave _ _ _) (.leave _ _ _) (h.seen hσ).leave
  standard _ hσ := h.change hσ (.addStandard _ _ _ _ _) (.addStandard _ _ _ _ _)
    ((h.seen hσ).addStandard _ _)
  addModule {_ _ m m'} localName hσ hm := by
    have hm : m = m' := by
      rw [← m.strip_nothing, ← m'.strip_nothing]
      exact hm
    cases hm
    exact h.change hσ (.addModule _ _ _ _ _) (.addModule _ _ _ _ _) ((h.seen hσ).addModule _ _)
  load package hpackage hσ := hload package hpackage hσ

variable (hc : c.Imports imports) (hload : ∀ {σ σ'} package, imports package → rel σ σ' →
  (Likeness.exact free rel).Loads (load package σ) (load' package σ'))
include hc hload

theorem Likeness.exact_runFile {file : Source.File} (hfile : file.meets c) {σ σ' : Session}
    (hσ : rel σ σ') (hspace : ∀ name, Checker.spaceOf σ name = Checker.spaceOf σ' name)
    (hseen : ∀ name, Checker.moduleName? file.stmts = some name →
      Session.SeenAlike rel settings.preludeSpace (Checker.spaceOf σ name) file.path) :
    (Likeness.exact free rel).Files (Checker.runFile settings load file σ)
      (Checker.runFile settings load' file σ') := by
  have hpair : (Likeness.exact free rel).Files (Checker.runFile settings load file σ)
      (Checker.runFile settings load' (file.strip false) σ') := by
    apply Likeness.runFile (L := .exact free rel) hσ rfl
    intro name hname
    refine ⟨.exact free (hseen name hname) hc hload, rfl, rfl, ?_, hfile⟩
    rw [← hspace]
    rfl
  rw [file.strip_false] at hpair
  exact hpair

theorem Likeness.exact_compileAll {files : List Source.File} (hfiles : ∀ file ∈ files, file.meets c)
    (hspace : ∀ {σ σ'} name, rel σ σ' → Checker.spaceOf σ name = Checker.spaceOf σ' name)
    (hseen : ∀ file ∈ files, ∀ σ σ' name, rel σ σ' → Checker.moduleName? file.stmts = some name →
      Session.SeenAlike rel settings.preludeSpace (Checker.spaceOf σ name) file.path)
    (d : Compilation) {σ σ' : Session} (hσ : rel σ σ') :
    (Likeness.exact free rel).Compilations (Session.compileAll settings load files d σ)
      (Session.compileAll settings load' files d σ') := by
  have hstrip : files.map (Source.File.strip false) = files :=
    (List.map_congr_left fun file _ => file.strip_false).trans (List.map_id files)
  have hall : (Likeness.exact free rel).Compilations (Session.compileAll settings load files d σ)
      (Session.compileAll settings load' (files.map (Source.File.strip false)) d σ') := by
    apply compileAll (L := .exact free rel) (p := (d, σ)) _ (.paired rfl rfl hσ)
    intro file hfile τ τ' hτ
    rw [show file.strip (Likeness.exact free rel).source = file from file.strip_false]
    exact exact_runFile hc hload (hfiles file hfile) hτ (hspace · hτ) (hseen file hfile τ τ' · hτ)
  rw [hstrip] at hall
  exact hall

end

theorem Likeness.Compilations.ok_of_ok {free : Prop} {rel : Session → Session → Prop}
    {p p' : Compilation × Session} (h : (Likeness.exact free rel).Compilations p p')
    {m : ModuleTy} (hm : p.1.result = .ok m) : p'.1.result = .ok m ∧ rel p.2 p'.2 := by
  cases h with
  | lost _ hreported =>
      rcases Compilation.result_of_reported hreported with ⟨errors, herror⟩
      rw [hm] at herror
      cases herror
  | @paired _ c' _ _ herrors hexports hσ =>
      have hresult := Compilations.result herrors hexports
      rw [hm] at hresult
      revert hresult
      generalize c'.result = r'
      intro hresult
      cases hresult with
      | @ok _ m' halike =>
          have heq : m = m' := by
            rw [← m.strip_nothing, ← m'.strip_nothing]
            exact halike
          exact ⟨congrArg Except.ok heq.symm, hσ⟩

end StaticTyping
