import StaticTyping.Proofs.Compiled
import StaticTyping.Proofs.Pairing.File

/-!
# Packages in two runs

The files of a package are checked one after another.  If each of them comes to the same in both
runs, then so does the package.
-/

namespace StaticTyping

open CheckM Source

/-!
# Exports
-/

theorem Typed.Stmt.exportedFunction?_strip (cut : Cut) (s : Typed.Stmt) :
    (s.strip cut).exportedFunction? = s.exportedFunction?.map (NamedFunction.strip cut) := by
  rcases s with ⟨kind, span⟩
  cases kind with
  | function f =>
      rcases f with ⟨name, sig, body⟩
      show (if (sig.strip cut).visibility = _ then some (sig.strip cut) else none) = _
      rw [sig.strip_visibility]
      show _ = (if sig.visibility = _ then some sig else none).map _
      split <;> rfl
  | _ => rfl

theorem Typed.Stmt.exportedClass?_strip (cut : Cut) (s : Typed.Stmt) :
    (s.strip cut).exportedClass? = s.exportedClass?.map (ClassTy.strip cut) := by
  rcases s with ⟨kind, span⟩
  cases kind with
  | classDecl name sig methods =>
      show (if (sig.strip cut).visibility = _ then some (sig.strip cut) else none) = _
      rw [sig.strip_visibility]
      show _ = (if sig.visibility = _ then some sig else none).map _
      split <;> rfl
  | _ => rfl

theorem Typed.Stmt.exportedVariable?_strip (cut : Cut) (s : Typed.Stmt) :
    (s.strip cut).exportedVariable? = s.exportedVariable?.map (Variable.strip cut) := by
  rcases s with ⟨kind, span⟩
  cases kind <;> rfl

theorem Typed.Stmt.filterMap_stripAll {α : Type} {strip : Cut → α → α}
    {f : Typed.Stmt → Option α} (cut : Cut) (hf : ∀ s, f (s.strip cut) = (f s).map (strip cut))
    (hcomment : ∀ text span, f ⟨.comment text, span⟩ = none) (ss : List Typed.Stmt) :
    (Typed.Stmt.stripAll cut ss).filterMap f = (ss.filterMap f).map (strip cut) := by
  induction ss with
  | nil => rfl
  | cons s ss ih =>
      rw [Typed.Stmt.stripAll]
      split
      next hs =>
        have hnone : f s = none := by
          rcases s with ⟨kind, span⟩
          cases kind with
          | comment text => exact hcomment text span
          | _ => cases (Bool.and_eq_true_iff.mp hs).2
        rw [List.filterMap_cons_none hnone, ih]
      next =>
        rw [List.filterMap_cons, List.filterMap_cons, hf, ih]
        cases f s <;> rfl

theorem Typed.File.exports_strip (cut : Cut) (f : Typed.File) :
    (f.strip cut).exports = f.exports.strip cut := by
  show ModuleTy.mk _ _ _ _ = ModuleTy.mk _ _ _ _
  rw [NamedFunction.stripAll_eq_map, ClassTy.stripAll_eq_map, Variable.stripAll_eq_map]
  have hfunctions := Stmt.filterMap_stripAll (f := Stmt.exportedFunction?) cut
    (Stmt.exportedFunction?_strip cut) (fun _ _ => rfl) f.stmts
  have hclasses := Stmt.filterMap_stripAll (f := Stmt.exportedClass?) cut
    (Stmt.exportedClass?_strip cut) (fun _ _ => rfl) f.stmts
  have hvalues := Stmt.filterMap_stripAll (f := Stmt.exportedVariable?) cut
    (Stmt.exportedVariable?_strip cut) (fun _ _ => rfl) f.stmts
  rw [← hfunctions, ← hclasses, ← hvalues]
  rfl

/-!
# Packages
-/

namespace Likeness

variable {L : Likeness} {settings settings' : Settings} {load load' : Loader}

/-- Two compilations and the sessions they have come to, or a first one that is bound to fail. -/
inductive Compilations (L : Likeness) : Compilation × Session → Compilation × Session → Prop where
  | paired {c c' σ σ'} : L.report c.errors c'.errors →
      L.AlikeOption ModuleTy.strip c.exports c'.exports → L.rel σ σ' →
      Compilations L (c, σ) (c', σ')
  | lost {p q} : L.free → p.1.errors.reported → Compilations L p q

theorem alike_exports {f f' : Typed.File} (h : L.Alike Typed.File.strip f f') :
    L.Alike ModuleTy.strip f.exports f'.exports :=
  alike_map Typed.File.exports_strip h

theorem alike_append {m m' n n' : ModuleTy} (hm : L.Alike ModuleTy.strip m m')
    (hn : L.Alike ModuleTy.strip n n') :
    L.Alike ModuleTy.strip (m.append n) (m'.append n') := by
  have hstrip : (m.append n).strip L.cut = (m.strip L.cut).append (n.strip L.cut) :=
    (ModuleTy.append_strip m n).symm
  unfold Alike
  rw [hstrip, hm, hn, ModuleTy.append_strip]

theorem Compilations.add {c c' : Compilation} (herrors : L.report c.errors c'.errors)
    (hexports : L.AlikeOption ModuleTy.strip c.exports c'.exports)
    {r r' : Except Batch Typed.File × Session} (hr : L.Files r r') :
    L.Compilations (c.add r.1, r.2) (c'.add r'.1, r'.2) := by
  cases hr with
  | @ok f f' _ _ hf hτ =>
      apply Compilations.paired _ _ hτ
      · rw [c.errors_add_ok, c'.errors_add_ok]
        exact herrors
      · rw [c.exports_add_ok, c'.exports_add_ok]
        have hfile := alike_exports hf
        apply congrArg some
        rcases hexports.cases with ⟨hnone, hnone'⟩ | ⟨m, m', hsome, hsome', hm⟩
        · rw [hnone, hnone']
          exact hfile
        · rw [hsome, hsome']
          exact alike_append hm hfile
  | error hr hτ => exact .paired (L.extend herrors hr) hexports hτ
  | free hfree hreported =>
      exact .lost hfree (c.errors.reported_extend_of_reported hreported)

theorem compileAll {files : List Source.File}
    (hfiles : ∀ file ∈ files, ∀ σ σ', L.rel σ σ' →
      L.Files (Checker.runFile settings load file σ)
        (Checker.runFile settings' load' (file.strip L.source) σ'))
    {p p' : Compilation × Session} (h : L.Compilations p p') :
    L.Compilations (Session.compileAll settings load files p.1 p.2)
      (Session.compileAll settings' load' (files.map (Source.File.strip L.source)) p'.1 p'.2) := by
  induction files generalizing p p' with
  | nil => exact h
  | cons file files ih =>
      cases h with
      | paired herrors hexports hσ =>
          have hrest := fun file hfile => hfiles file (List.mem_cons_of_mem _ hfile)
          exact ih hrest (.add herrors hexports (hfiles file List.mem_cons_self _ _ hσ))
      | lost hfree hreported => exact .lost hfree (Session.reported_compileAll _ hreported _)

inductive Results (L : Likeness) : Except Batch ModuleTy → Except Batch ModuleTy → Prop where
  | ok {m m'} : L.Alike ModuleTy.strip m m' → Results L (.ok m) (.ok m')
  | error {r r'} : L.report r r' → Results L (.error r) (.error r')

theorem Compilations.result {c c' : Compilation} (herrors : L.report c.errors c'.errors)
    (hexports : L.AlikeOption ModuleTy.strip c.exports c'.exports) :
    L.Results c.result c'.result := by
  unfold Compilation.result
  rcases hexports.cases with ⟨hnone, hnone'⟩ | ⟨m, m', hsome, hsome', hm⟩
  · rw [hnone, hnone']
    exact .error herrors
  · rw [hsome, hsome', L.reported herrors]
    dsimp only
    split
    · exact .error herrors
    · exact .ok hm

theorem Compilations.compile {package : String} {files files' : List Source.File}
    (hend : ∀ σ σ', L.rel σ σ' → L.rel σ.endPackage σ'.endPackage)
    (hkeep : ∀ σ σ' m m', L.rel σ σ' → L.Alike ModuleTy.strip m m' →
      L.rel { σ with compiled := σ.compiled.insert package m }
        { σ' with compiled := σ'.compiled.insert package m' })
    {σ σ' : Session}
    (hall : L.Compilations
      (Session.compileAll settings load files (.start settings) (σ.beginPackage package))
      (Session.compileAll settings' load' files' (.start settings') (σ'.beginPackage package))) :
    L.Loads (Session.compile settings load package files σ)
      (Session.compile settings' load' package files' σ') := by
  unfold Session.compile
  revert hall
  generalize Session.compileAll settings load files (.start settings) (σ.beginPackage package) = q
  generalize Session.compileAll settings' load' files' (.start settings') (σ'.beginPackage package)
    = q'
  intro hall
  cases hall with
  | lost hfree hreported =>
      rcases Compilation.result_of_reported hreported with ⟨errors, hresult⟩
      dsimp only
      rw [hresult]
      exact .free hfree
  | @paired c c' τ τ' herrors hexports hτ =>
      have hresult := Compilations.result herrors hexports
      dsimp only
      revert hresult
      generalize c.result = r
      generalize c'.result = r'
      intro hresult
      cases hresult with
      | ok hm => exact .ok hm (hkeep _ _ _ _ (hend _ _ hτ) hm)
      | error hr => exact .failed hr (hend _ _ hτ)

theorem compile {package : String} {files : List Source.File}
    (hfiles : ∀ file ∈ files, ∀ σ σ', L.rel σ σ' →
      L.Files (Checker.runFile settings load file σ)
        (Checker.runFile settings' load' (file.strip L.source) σ'))
    (hend : ∀ σ σ', L.rel σ σ' → L.rel σ.endPackage σ'.endPackage)
    (hkeep : ∀ σ σ' m m', L.rel σ σ' → L.Alike ModuleTy.strip m m' →
      L.rel { σ with compiled := σ.compiled.insert package m }
        { σ' with compiled := σ'.compiled.insert package m' })
    (hreport : L.report (.ofLimit settings.maxErrors) (.ofLimit settings'.maxErrors))
    {σ σ' : Session} (hσ : L.rel (σ.beginPackage package) (σ'.beginPackage package)) :
    L.Loads (Session.compile settings load package files σ)
      (Session.compile settings' load' package (files.map (Source.File.strip L.source)) σ') := by
  have hstart : L.Compilations (.start settings, σ.beginPackage package)
      (.start settings', σ'.beginPackage package) := .paired hreport rfl hσ
  exact (compileAll hfiles hstart).compile hend hkeep

end Likeness
end StaticTyping
