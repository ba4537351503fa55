import StaticTyping.Proofs.Pairing.Exact

/-!
# One session in two runs

Two runs that start in one and the same session stay in the same one if their loaders do, whatever
limits they have for their reports, as long as these are kept in a relation.  Something may be known
of the session that has nothing to do with its tables: then the loaders have to agree only where it
holds.  What loaders keep true, files keep true.
-/

namespace StaticTyping

open CheckM Source

/-- A relation of reports that goes on to hold while they grow. -/
structure Batch.Growing (report : Batch → Batch → Prop) : Prop where
  reported : ∀ {r r'}, report r r' → r.reported = r'.reported
  push : ∀ {r r'} d, report r r' → report (r.push d) (r'.push d)
  extend : ∀ {r r' e e'}, report r r' → report e e' → report (r.extend e) (r'.extend e')

theorem Batch.Growing.eq : Batch.Growing Eq where
  reported h := congrArg _ h
  push d h := by rw [h]
  extend h he := by rw [h, he]

theorem Batch.Growing.push_of_eq {report : Batch → Batch → Prop} (h : Batch.Growing report)
    {r r' : Batch} {d d' : Diagnostic} (hr : report r r') (hd : True → d = d') :
    report (r.push d) (r'.push d') := by
  rw [← hd trivial]
  exact h.push d hr

def Likeness.same {report : Batch → Batch → Prop} (hreport : Batch.Growing report)
    (known : Session → Prop) : Likeness :=
  { exact False fun σ σ' => σ = σ' ∧ known σ with
    report := report
    reported := hreport.reported
    push := hreport.push_of_eq
    extend := hreport.extend }

def Session.ApartFromTables (known : Session → Prop) : Prop :=
  ∀ σ t, known σ → known { σ with symbols := t }

def Session.ApartFromSpace (known : Session → Prop) (space : String) : Prop :=
  ∀ σ t, known σ →
    (∀ other, other ≠ space → t.spaces.get? other = σ.symbols.spaces.get? other) →
    known { σ with symbols := t }

theorem Session.ApartFromTables.space {known : Session → Prop} (h : ApartFromTables known)
    (space : String) : ApartFromSpace known space :=
  fun σ t hσ _ => h σ t hσ

section

variable {report : Batch → Batch → Prop} (hreport : Batch.Growing report) {known : Session → Prop}

theorem Likeness.eq_of_same {α : Type} {strip : Cut → α → α} (hstrip : ∀ a, strip .nothing a = a)
    {a a' : α} (h : (same hreport known).Alike strip a a') : a = a' := by
  rw [← hstrip a, ← hstrip a']
  exact h

theorem Likeness.eq_of_sameOption {α : Type} {strip : Cut → α → α}
    (hstrip : ∀ a, strip .nothing a = a) {o o' : Option α}
    (h : (same hreport known).AlikeOption strip o o') : o = o' := by
  rcases h.cases with ⟨hnone, hnone'⟩ | ⟨a, a', hsome, hsome', ha⟩
  · rw [hnone, hnone']
  · rw [hsome, hsome', eq_of_same hreport hstrip ha]

def Pairing.same (settings : Settings) {limit limit' : Nat} (file space : String)
    (hknown : Session.ApartFromSpace known space) {load load' : Loader}
    (hload : ∀ package σ, known σ →
      (Likeness.same hreport known).Loads (load package σ) (load' package σ)) :
    Pairing where
  toLikeness := .same hreport known
  env := ⟨{ settings with maxErrors := limit }, file, space, load⟩
  env' := ⟨{ settings with maxErrors := limit' }, file, space, load'⟩
  condition := {}
  imports _ := True
  one _ := trivial
  many _ _ _ := trivial
  written _ := rfl
  blocks _ hsource := absurd hsource Bool.false_ne_true
  conds _ hsource := absurd hsource Bool.false_ne_true
  lambdas _ hsource := absurd hsource Bool.false_ne_true
  functions _ hsource := absurd hsource Bool.false_ne_true
  methods _ hsource := absurd hsource Bool.false_ne_true
  kept := .inl rfl
  defaults := .inl ⟨rfl, rfl⟩
  file _ := rfl
  lookup := by
    rintro σ _ ⟨rfl, _⟩ name
    rfl
  prelude := by
    rintro σ _ ⟨rfl, _⟩ name
    rfl
  imported := by
    rintro σ _ ⟨rfl, _⟩ name
    rfl
  bind := by
    rintro σ _ ty ty' name ⟨rfl, hσ⟩ hty
    cases Likeness.eq_of_same hreport Ty.strip_nothing hty
    exact ⟨rfl, hknown σ _ hσ fun _ hother => σ.symbols.get?_setScopes_of_ne _ hother⟩
  enter := by
    rintro σ _ ⟨rfl, hσ⟩
    exact ⟨rfl, hknown σ _ hσ fun _ hother => σ.symbols.get?_setScopes_of_ne _ hother⟩
  leave := by
    rintro σ _ ⟨rfl, hσ⟩
    exact ⟨rfl, hknown σ _ hσ fun _ hother => σ.symbols.get?_leave_of_ne hother⟩
  standard := by
    rintro σ _ ty package localName _ ⟨rfl, hσ⟩
    exact ⟨rfl, hknown σ _ hσ fun _ _ => by rw [SymbolTable.spaces_addStandard]⟩
  addModule := by
    rintro σ _ m m' localName ⟨rfl, hσ⟩ hm
    cases Likeness.eq_of_same hreport ModuleTy.strip_nothing hm
    exact ⟨rfl, hknown σ _ hσ fun _ _ => rfl⟩
  load := by
    rintro σ _ package _ ⟨rfl, hσ⟩
    exact hload package σ hσ

end

namespace Likeness

variable (settings : Settings) {limit limit' : Nat} {report : Batch → Batch → Prop}
  {hreport : Batch.Growing report} (hlimits : report (.ofLimit limit) (.ofLimit limit'))
  {known : Session → Prop} {load load' : Loader}
  (hload : ∀ package σ, known σ → (same hreport known).Loads (load package σ) (load' package σ))
include hlimits hload

theorem same_runFile_within (file : Source.File) {σ : Session} (hσ : known σ)
    (hknown : ∀ name, Checker.moduleName? file.stmts = some name →
      Session.ApartFromSpace known (Checker.spaceOf σ name)) :
    (same hreport known).Files
      (Checker.runFile { settings with maxErrors := limit } load file σ)
      (Checker.runFile { settings with maxErrors := limit' } load' file σ) := by
  have hpair : (same hreport known).Files
      (Checker.runFile { settings with maxErrors := limit } load file σ)
      (Checker.runFile { settings with maxErrors := limit' } load' (file.strip false) σ) := by
    refine Likeness.runFile (L := same hreport known) ⟨rfl, hσ⟩ hlimits fun name hname => ?_
    exact ⟨.same hreport settings file.path (Checker.spaceOf σ name) (hknown name hname) hload, rfl,
      rfl, rfl, Condition.Vacuous.empty.ofStmts file.stmts⟩
  rw [file.strip_false] at hpair
  exact hpair

variable (hknown : Session.ApartFromTables known)
include hknown

theorem same_runFile (file : Source.File) {σ : Session} (hσ : known σ) :
    (same hreport known).Files
      (Checker.runFile { settings with maxErrors := limit } load file σ)
      (Checker.runFile { settings with maxErrors := limit' } load' file σ) :=
  same_runFile_within settings hlimits hload file hσ fun _ _ => hknown.space _

theorem same_compileAll (files : List Source.File) {σ : Session} (hσ : known σ) :
    (same hreport known).Compilations
      (Session.compileAll { settings with maxErrors := limit } load files
        (.start { settings with maxErrors := limit }) σ)
      (Session.compileAll { settings with maxErrors := limit' } load' files
        (.start { settings with maxErrors := limit' }) σ) := by
  have hstart : (same hreport known).Compilations
      (.start { settings with maxErrors := limit }, σ)
      (.start { settings with maxErrors := limit' }, σ) := .paired hlimits rfl ⟨rfl, hσ⟩
  have hall : (same hreport known).Compilations
      (Session.compileAll { settings with maxErrors := limit } load files
        (.start { settings with maxErrors := limit }) σ)
      (Session.compileAll { settings with maxErrors := limit' } load'
        (files.map (Source.File.strip false)) (.start { settings with maxErrors := limit' }) σ) := by
    refine compileAll ?_ hstart
    rintro file _ τ _ ⟨rfl, hτ⟩
    rw [show file.strip (same hreport known).source = file from file.strip_false]
    exact same_runFile settings hlimits hload hknown file hτ
  rw [(List.map_congr_left fun file _ => file.strip_false).trans (List.map_id files)] at hall
  exact hall

end Likeness

/-!
# Loaders that agree
-/

namespace Likeness

variable {known : Session → Prop}

theorem loads_self {r : Except LoadError ModuleTy × Session} (h : known r.2) :
    (same .eq known).Loads r r := by
  rcases r with ⟨r, σ⟩
  cases r with
  | ok m => exact .ok rfl ⟨rfl, h⟩
  | error e =>
      cases e with
      | cycle => exact .cycle ⟨rfl, h⟩
      | unavailable reason => exact .unavailable ⟨rfl, h⟩
      | failed errors => exact .failed rfl ⟨rfl, h⟩

theorem eq_of_files {r r' : Except Batch Typed.File × Session}
    (h : (same .eq known).Files r r') : r = r' ∧ known r.2 := by
  cases h with
  | ok hf hτ =>
      rw [eq_of_same _ Typed.File.strip_nothing hf, hτ.1]
      exact ⟨rfl, hτ.1 ▸ hτ.2⟩
  | error hr hτ =>
      cases hr
      rw [hτ.1]
      exact ⟨rfl, hτ.1 ▸ hτ.2⟩
  | free h => exact h.elim

theorem eq_of_compilations {p p' : Compilation × Session}
    (h : (same .eq known).Compilations p p') : p = p' ∧ known p.2 := by
  cases h with
  | @paired c c' _ _ herrors hexports hσ =>
      have hc : c = c' := by
        rcases c with ⟨errors, exports⟩
        rcases c' with ⟨errors', exports'⟩
        cases herrors
        cases eq_of_sameOption _ ModuleTy.strip_nothing hexports
        rfl
      rw [hc, hσ.1]
      exact ⟨rfl, hσ.1 ▸ hσ.2⟩
  | lost h => exact h.elim

end Likeness

namespace Session

def AgreeWhere (known : Session → Prop) (load load' : Loader) : Prop :=
  ∀ package σ, known σ → load package σ = load' package σ ∧ known (load package σ).2

namespace AgreeWhere

variable {known : Session → Prop} {load load' : Loader} (h : AgreeWhere known load load')
  (settings : Settings)
include h

theorem loads (package : String) (σ : Session) (hσ : known σ) :
    (Likeness.same .eq known).Loads (load package σ) (load' package σ) := by
  rcases h package σ hσ with ⟨heq, hτ⟩
  rw [← heq]
  exact Likeness.loads_self hτ

theorem runFile_within (file : Source.File) {σ : Session} (hσ : known σ)
    (hknown : ∀ name, Checker.moduleName? file.stmts = some name →
      ApartFromSpace known (Checker.spaceOf σ name)) :
    Checker.runFile settings load file σ = Checker.runFile settings load' file σ ∧
      known (Checker.runFile settings load file σ).2 :=
  Likeness.eq_of_files
    (Likeness.same_runFile_within settings (Eq.refl (Batch.ofLimit settings.maxErrors)) h.loads file
      hσ hknown)

variable (hknown : ApartFromTables known)
include hknown

theorem runFile (file : Source.File) {σ : Session} (hσ : known σ) :
    Checker.runFile settings load file σ = Checker.runFile settings load' file σ ∧
      known (Checker.runFile settings load file σ).2 :=
  h.runFile_within settings file hσ fun _ _ => hknown.space _

theorem compileAll (files : List Source.File) {σ : Session} (hσ : known σ) :
    compileAll settings load files (.start settings) σ =
        compileAll settings load' files (.start settings) σ ∧
      known (compileAll settings load files (.start settings) σ).2 :=
  Likeness.eq_of_compilations
    (Likeness.same_compileAll settings (Eq.refl (Batch.ofLimit settings.maxErrors)) h.loads hknown
      files hσ)

end AgreeWhere
end Session

/-!
# Runs that succeed

What a loader keeps true as long as it succeeds, a file keeps true that succeeds.  For this, one and
the same run is taken twice, and the first copy may fail.
-/

def Likeness.succeeding (known : Session → Prop) : Likeness :=
  { same .eq known with free := True }

def Loader.refusing : Loader := fun _ σ => (.error .cycle, σ)

theorem Loader.loads_refusing (known : Session → Prop) (package : String) (σ : Session)
    (hσ : known σ) :
    (Likeness.same .eq known).Loads (Loader.refusing package σ) (Loader.refusing package σ) :=
  .cycle ⟨rfl, hσ⟩

def Loader.Keeps (load : Loader) (known : Session → Prop) : Prop :=
  ∀ package σ m τ, known σ → load package σ = (.ok m, τ) → known τ

namespace Loader.Keeps

variable {load : Loader} {known : Session → Prop}

theorem loads (h : load.Keeps known) (package : String) {σ : Session} (hσ : known σ) :
    (Likeness.succeeding known).Loads (load package σ) (load package σ) := by
  cases hload : load package σ with
  | mk r τ =>
      cases r with
      | ok m => exact .ok rfl ⟨rfl, h package σ m τ hσ hload⟩
      | error e => exact .free trivial

def pairing (h : load.Keeps known) (settings : Settings)
    (hknown : Session.ApartFromTables known) (file space : String) : Pairing :=
  { @Pairing.same Eq .eq known settings 0 0 file space (hknown.space space) _ _
      (Loader.loads_refusing known) with
    free := True
    env := ⟨settings, file, space, load⟩
    env' := ⟨settings, file, space, load⟩
    kept := .inl rfl
    defaults := .inl ⟨rfl, rfl⟩
    load := by
      rintro σ _ package _ ⟨rfl, hσ⟩
      exact h.loads package hσ }

variable (h : load.Keeps known) {settings : Settings} (hknown : Session.ApartFromTables known)
include h hknown

theorem runFile {file : Source.File} {σ τ : Session} {f : Typed.File} (hσ : known σ)
    (hrun : Checker.runFile settings load file σ = (.ok f, τ)) : known τ := by
  have hpair : (Likeness.succeeding known).Files (Checker.runFile settings load file σ)
      (Checker.runFile settings load (file.strip false) σ) := by
    apply Likeness.runFile (L := .succeeding known) ⟨rfl, hσ⟩ rfl
    intro name _
    exact ⟨h.pairing settings hknown file.path (Checker.spaceOf σ name), rfl, rfl, rfl,
      Condition.Vacuous.empty.ofStmts file.stmts⟩
  rw [file.strip_false, hrun] at hpair
  cases hpair with
  | ok _ hτ => exact hτ.2

theorem checked {files : List Source.File} {σ τ : Session} {fs : List Typed.File}
    (hchecked : Session.Checked settings load files σ fs τ) (hσ : known σ) : known τ := by
  induction hchecked with
  | nil => exact hσ
  | cons hrun _ ih => exact ih (h.runFile hknown hσ hrun)

end Loader.Keeps
end StaticTyping
