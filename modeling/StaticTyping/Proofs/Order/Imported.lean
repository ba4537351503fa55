import StaticTyping.Proofs.Order.Passes
import StaticTyping.Proofs.Order.Standard

/-!
# What is imported stays imported

No check takes an import back.  So what the import statements of a file have made visible is
visible in everything that follows.
-/

namespace StaticTyping

open CheckM

/-!
# Relations of symbol tables that loading respects
-/

section

variable {R : SymbolTable → SymbolTable → Prop} {P : String → Prop}
  (refl : ∀ t, R t t) (trans : ∀ {t u v}, R t u → R u v → R t v)
  (hframe : ∀ env : Env, P env.file →
    (∀ package σ, R σ.symbols (env.load package σ).2.symbols) →
    ∃ F : Frame env {}, F.imports ∧ ∀ {s t}, F.rel s t → R s.session.symbols t.session.symbols)
include refl trans hframe

theorem Session.runFile_symbols (settings : Settings) {load : Loader}
    (hload : ∀ package σ, R σ.symbols (load package σ).2.symbols) {file : Source.File}
    (hfile : P file.path) (σ : Session) :
    R σ.symbols (Checker.runFile settings load file σ).2.symbols := by
  refine Frame.runFile (R := fun σ τ => R σ.symbols τ.symbols) (fun σ => refl σ.symbols)
    (fun h h' => trans h h') fun {name env} henv => ?_
  rcases Option.map_eq_some_iff.mp henv with ⟨_, _, hpair⟩
  cases hpair
  exact hframe _ hfile hload

theorem Session.compileAll_symbols (settings : Settings) {load : Loader}
    (hload : ∀ package σ, R σ.symbols (load package σ).2.symbols) {files : List Source.File}
    (hfiles : ∀ file ∈ files, P file.path) (c : Compilation) (σ : Session) :
    R σ.symbols (compileAll settings load files c σ).2.symbols := by
  induction files generalizing c σ with
  | nil => exact refl σ.symbols
  | cons file files ih =>
      rcases List.forall_mem_cons.mp hfiles with ⟨hfile, hrest⟩
      exact trans (runFile_symbols refl trans hframe settings hload hfile σ) (ih hrest _ _)

theorem Session.load_symbols (settings : Settings) (packages : Resolver)
    (hpaths : ∀ package files, packages.filesAt (settings.pathOf package) = .ok files →
      ∀ file ∈ files, P file.path)
    (depth : Nat) (package : String) (σ : Session) :
    R σ.symbols (load settings packages depth package σ).2.symbols := by
  refine load_induction (P := fun _ σ r => R σ.symbols r.2.symbols) (fun σ _ => refl σ.symbols)
    (fun {_ _ σ} _ => refl σ.symbols) (fun _ σ => refl σ.symbols) (fun σ _ => refl σ.symbols)
    (fun {depth package files σ} ih hnew => ?_) depth package σ
  have h := compileAll_symbols refl trans hframe settings ih (hpaths package files hnew.files)
    (.start settings) ((σ.request (settings.pathOf package)).beginPackage package)
  unfold compile
  dsimp only
  split
  · exact h
  · exact h

end

/-!
# Imports
-/

def SymbolTable.KeepsImports (t u : SymbolTable) : Prop :=
  ∀ file localName, t.imported? file localName ≠ none → u.imported? file localName ≠ none

theorem SymbolTable.KeepsImports.addModule (t : SymbolTable) (file localName : String)
    (m : ModuleTy) : t.KeepsImports (t.addModule file localName m) := by
  intro file' localName' h
  by_cases hsame : file' = file ∧ localName' = localName
  · rcases hsame with ⟨rfl, rfl⟩
    simp
  · rw [t.imported?_addModule_of_ne m (Decidable.not_and_iff_not_or_not.mp hsame)]
    exact h

theorem SymbolTable.KeepsImports.of_eq {t u : SymbolTable} (h : u.imports = t.imports) :
    t.KeepsImports u := by
  intro file localName himported
  unfold SymbolTable.imported? SymbolTable.importsOf
  rw [h]
  exact himported

def Frame.importing (env : Env)
    (hload : ∀ package (σ : Session), σ.symbols.KeepsImports (env.load package σ).2.symbols) :
    Frame env {} where
  rel s t := s.session.symbols.KeepsImports t.session.symbols
  imports := True
  one _ := .inl trivial
  many _ := .inl trivial
  refl _ _ _ h := h
  trans h h' file localName := h' file localName ∘ h file localName
  declare _ _ _ := .of_eq rfl
  standard {_ package localName} _ s := by
    rcases importStandard_cases package localName env s with h | ⟨m, _, h⟩
    · rw [h]
      exact .of_eq rfl
    · rw [h]
      exact .addModule _ _ _ m
  importModule _ i s := CheckM.session_importModule
    (P := fun τ => s.session.symbols.KeepsImports τ.symbols) (hload i.package.name s.session)
    fun m _ _ h file localName himported =>
      SymbolTable.KeepsImports.addModule _ _ _ m file localName (h file localName himported)
  inScope {s t} h file localName himported :=
    SymbolTable.KeepsImports.of_eq (t.session.symbols.imports_leave env.space) file localName
      (h file localName himported)
  inStmt h := h
  inExpr h := h
  inClass h := h
  report _ _ _ _ _ h := h

theorem Session.load_keepsImports (settings : Settings) (packages : Resolver) (depth : Nat)
    (package : String) (σ : Session) :
    σ.symbols.KeepsImports (load settings packages depth package σ).2.symbols :=
  load_symbols (R := SymbolTable.KeepsImports) (P := fun _ => True) (fun _ => .of_eq rfl)
    (fun h h' file localName => h' file localName ∘ h file localName)
    (fun env _ hload => ⟨Frame.importing env hload, trivial, id⟩) settings packages
    (fun _ _ _ _ _ => trivial) depth package σ

/-!
# The imports of a file
-/

def Source.Stmt.imports : Source.Stmt → List Source.Import
  | ⟨.importOne package alias?, span⟩ => [⟨package, alias?, span⟩]
  | ⟨.importMany imports, _⟩ => imports
  | _ => []

section

variable {env : Env}
  (hload : ∀ package (σ : Session), σ.symbols.KeepsImports (env.load package σ).2.symbols)
  {s t : State}

theorem CheckM.importModule_imported {i : Source.Import} {target : Typed.Import}
    (h : importModule i env s = (.ok target, t)) : t.Imported env i.space := by
  rcases bind_apply_eq_ok.mp h with ⟨m, s', _, hadd⟩
  rcases bind_apply_eq_ok.mp hadd with ⟨_, t', hadded, hpure⟩
  cases hadded
  cases hpure
  show (SymbolTable.addModule _ _ _ _).imported? _ _ ≠ none
  rw [SymbolTable.imported?_addModule_self]
  exact Option.some_ne_none _

include hload

theorem State.Imported.of_keeps {α : Type} {x : CheckM α} {r : Except Fault α} {localName : String}
    (h : s.Imported env localName) (hx : (Frame.importing env hload).Keeps x)
    (hrun : x env s = (r, t)) : t.Imported env localName := by
  have hkept := hx s
  rw [hrun] at hkept
  exact hkept env.file localName h

theorem CheckM.importModules_imported {is : List Source.Import} {targets : List Typed.Import}
    (h : collect (is.map importModule) env s = (.ok targets, t)) :
    ∀ i ∈ is, t.Imported env i.space := by
  induction is generalizing s targets with
  | nil => exact fun i hi => absurd hi List.not_mem_nil
  | cons i is ih =>
      rcases bind_apply_eq_ok.mp h with ⟨target, s', hfirst, hrest⟩
      rcases bind_apply_eq_ok.mp hrest with ⟨targets, t', htargets, hpure⟩
      cases hpure
      have hkeeps : (Frame.importing env hload).Keeps (collect (is.map importModule)) := by
        refine Closure.Has.collect fun x hx => ?_
        rcases List.mem_map.mp hx with ⟨i, _, rfl⟩
        exact (Frame.importing env hload).importModule trivial i
      exact List.forall_mem_cons.mpr
        ⟨(importModule_imported hfirst).of_keeps hload hkeeps htargets, ih htargets⟩

theorem Checker.importPhase_imported {stmt : Source.Stmt} {x : CheckM Item} {item : Item}
    (hx : importPhase stmt = some x) (h : x env s = (.ok item, t)) :
    ∀ i ∈ stmt.imports, t.Imported env i.space := by
  unfold importPhase at hx
  split at hx
  · cases hx
    rw [← bind_pure_comp] at h
    rcases bind_apply_eq_ok.mp h with ⟨_, s', himport, hpure⟩
    rcases bind_apply_eq_ok.mp himport with ⟨target, t', hmodule, hpure'⟩
    cases hpure
    cases hpure'
    exact List.forall_mem_singleton.mpr (importModule_imported hmodule)
  · cases hx
    rw [← bind_pure_comp] at h
    rcases bind_apply_eq_ok.mp h with ⟨_, s', himports, hpure⟩
    rcases bind_apply_eq_ok.mp himports with ⟨targets, t', hmodules, hpure'⟩
    cases hpure
    cases hpure'
    exact importModules_imported hload hmodules
  · cases hx

theorem Checker.importPhase_keeps (slots : List Slot) :
    (Frame.importing env hload).Keeps (runPhase importPhase slots) :=
  Closure.runPhase _ (Closure.attempts _ trivial) fun _ _ _ hx =>
    (Frame.importing env hload).closure.importPhase (.inl trivial) hx

theorem Checker.runPhase_imported {slots slots' : List Slot}
    (h : (runPhase importPhase slots).Succeeds env s slots' t) :
    ∀ slot ∈ slots, ∀ i ∈ slot.stmt.imports, t.Imported env i.space := by
  induction slots generalizing s slots' with
  | nil => exact fun slot hslot => absurd hslot List.not_mem_nil
  | cons slot slots ih =>
      obtain ⟨slot', slots', s', rfl, hfirst, hrest⟩ :=
        (Succeeds.collect_cons_iff (fillSlot_reporting (importPhase_reporting env))).mp h
      refine List.forall_mem_cons.mpr ⟨fun i hi => ?_, ih hrest⟩
      cases hphase : importPhase slot.stmt with
      | none =>
          rcases slot with ⟨⟨kind, span⟩, item⟩
          cases kind with
          | importOne | importMany => cases hphase
          | _ => exact absurd hi List.not_mem_nil
      | some x =>
          rcases (fillSlot_iff hphase).mp hfirst with ⟨item, _, hx⟩
          exact (importPhase_imported hload hphase hx.value i hi).of_keeps hload
            (importPhase_keeps hload slots) hrest.value

theorem Checker.outline_imported {ss : List Source.Stmt} {items : List Item}
    (h : (outline ss).Succeeds env s items t) :
    ∀ stmt ∈ ss, ∀ i ∈ stmt.imports, t.Imported env i.space := by
  rcases outline_iff.mp h with ⟨slots₁, slots₂, slots₃, slots₄, slots₅, s₁, s₂, s₃, s₄, hruns, _⟩
  intro stmt hstmt i hi
  have hfirst : s₁.Imported env i.space :=
    runPhase_imported hload hruns.imports ⟨stmt, none⟩ (List.mem_map_of_mem hstmt) i hi
  have admits : ∀ met, (Frame.importing env hload).closure.Admits met := fun _ => .inl trivial
  have hattempts : (Frame.importing env hload).closure.Attempts := Closure.attempts _ trivial
  have hforward := hfirst.of_keeps hload (Closure.declareAll _ _)
    (declareAll_apply (ss.filterMap forward?) env s₁)
  have hinterfaces := hforward.of_keeps hload
    (Closure.runPhase _ hattempts fun _ _ _ hx => Closure.interfacePhase _ (admits _) hx)
    hruns.interfaces.value
  have hclasses := hinterfaces.of_keeps hload
    (Closure.runPhase _ hattempts fun _ _ _ hx => Closure.classPhase _ (admits _) hx)
      hruns.classes.value
  have hfunctions := hclasses.of_keeps hload
    (Closure.runPhase _ hattempts fun _ _ _ hx => Closure.functionPhase _ (admits _) hx)
    hruns.functions.value
  exact hfunctions.of_keeps hload
    (Closure.runPhase _ hattempts fun _ _ _ hx => Closure.bindingPhase _ (admits _) hx)
      hruns.values.value

end

end StaticTyping
