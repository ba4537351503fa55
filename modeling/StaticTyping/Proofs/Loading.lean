import StaticTyping.Checker.Session

/-!
# What loading a package can do, and which sessions there are

A load finds the package in the standard library or among those compiled before, or it refuses a
package that is under way, or it asks for the files and compiles them.  Sessions start with the
builtin functions and go on by checks of files.
-/

namespace StaticTyping
namespace Session

section Load

variable {settings : Settings} {packages : Resolver} {package : String} {σ : Session}
  {m : ModuleTy} {files : List Source.File} {reason : PackageError}

theorem load_of_standard (depth : Nat) (h : Library.standard? package = some m) :
    load settings packages depth package σ = (.ok m, σ) := by
  cases depth <;> simp only [load, h]

theorem load_of_known (depth : Nat) (h : Library.standard? package = none)
    (hknown : σ.compiled.get? package = some m) :
    load settings packages depth package σ = (.ok m, σ) := by
  cases depth <;> simp only [load, h, hknown]

theorem load_of_underWay (depth : Nat) (h : Library.standard? package = none)
    (hnew : σ.compiled.get? package = none) (hway : package ∈ σ.underWay) :
    load settings packages depth package σ = (.error .cycle, σ) := by
  cases depth <;> simp [load, h, hnew, hway]

theorem load_of_unavailable (depth : Nat) (h : Library.standard? package = none)
    (hnew : σ.compiled.get? package = none) (hway : package ∉ σ.underWay)
    (hfiles : packages.filesAt (settings.pathOf package) = .error reason) :
    load settings packages depth package σ =
      (.error (.unavailable reason), σ.request (settings.pathOf package)) := by
  cases depth <;> simp [load, h, hnew, hway, hfiles]

theorem load_zero (h : Library.standard? package = none)
    (hnew : σ.compiled.get? package = none) (hway : package ∉ σ.underWay)
    (hfiles : packages.filesAt (settings.pathOf package) = .ok files) :
    load settings packages 0 package σ = (.error .cycle, σ.request (settings.pathOf package)) := by
  simp [load, h, hnew, hway, hfiles]

theorem load_succ (depth : Nat) (h : Library.standard? package = none)
    (hnew : σ.compiled.get? package = none) (hway : package ∉ σ.underWay)
    (hfiles : packages.filesAt (settings.pathOf package) = .ok files) :
    load settings packages (depth + 1) package σ =
      compile settings (load settings packages depth) package files
        (σ.request (settings.pathOf package)) := by
  simp [load, h, hnew, hway, hfiles]

end Load

/-- A package that has to be compiled, from its files. -/
structure Uncompiled (settings : Settings) (packages : Resolver) (package : String)
    (σ : Session) (files : List Source.File) : Prop where
  standard : Library.standard? package = none
  unknown : σ.compiled.get? package = none
  idle : package ∉ σ.underWay
  files : packages.filesAt (settings.pathOf package) = .ok files

namespace Uncompiled

variable {settings : Settings} {packages : Resolver} {package : String} {σ : Session}
  {files : List Source.File} (h : Uncompiled settings packages package σ files)
include h

theorem load_zero (limit : Nat) :
    load { settings with maxErrors := limit } packages 0 package σ =
      (.error .cycle, σ.request (settings.pathOf package)) :=
  Session.load_zero h.standard h.unknown h.idle h.files

theorem load_succ (limit depth : Nat) :
    load { settings with maxErrors := limit } packages (depth + 1) package σ =
      compile { settings with maxErrors := limit }
        (load { settings with maxErrors := limit } packages depth) package files
        (σ.request (settings.pathOf package)) :=
  Session.load_succ depth h.standard h.unknown h.idle h.files

end Uncompiled

inductive LoadStep (settings : Settings) (packages : Resolver) (package : String) (σ : Session) :
    Nat → Except LoadError ModuleTy × Session → Prop where
  | standard {depth m} : Library.standard? package = some m →
      LoadStep settings packages package σ depth (.ok m, σ)
  | known {depth m} : Library.standard? package = none → σ.compiled.get? package = some m →
      LoadStep settings packages package σ depth (.ok m, σ)
  | underWay {depth} : Library.standard? package = none → σ.compiled.get? package = none →
      package ∈ σ.underWay → LoadStep settings packages package σ depth (.error .cycle, σ)
  | unavailable {depth reason} : Library.standard? package = none →
      σ.compiled.get? package = none → package ∉ σ.underWay →
      packages.filesAt (settings.pathOf package) = .error reason →
      LoadStep settings packages package σ depth
        (.error (.unavailable reason), σ.request (settings.pathOf package))
  | tooDeep {files} : Uncompiled settings packages package σ files →
      LoadStep settings packages package σ 0 (.error .cycle, σ.request (settings.pathOf package))
  | compiled {depth files} : Uncompiled settings packages package σ files →
      LoadStep settings packages package σ (depth + 1)
        (compile settings (load settings packages depth) package files
          (σ.request (settings.pathOf package)))

theorem load_step (settings : Settings) (packages : Resolver) (depth : Nat) (package : String)
    (σ : Session) :
    LoadStep settings packages package σ depth (load settings packages depth package σ) := by
  cases hstandard : Library.standard? package with
  | some m =>
      rw [load_of_standard depth hstandard]
      exact .standard hstandard
  | none =>
      cases hknown : σ.compiled.get? package with
      | some m =>
          rw [load_of_known depth hstandard hknown]
          exact .known hstandard hknown
      | none =>
          by_cases hway : package ∈ σ.underWay
          · rw [load_of_underWay depth hstandard hknown hway]
            exact .underWay hstandard hknown hway
          · cases hfiles : packages.filesAt (settings.pathOf package) with
            | error reason =>
                rw [load_of_unavailable depth hstandard hknown hway hfiles]
                exact .unavailable hstandard hknown hway hfiles
            | ok files =>
                cases depth with
                | zero =>
                    rw [load_zero hstandard hknown hway hfiles]
                    exact .tooDeep ⟨hstandard, hknown, hway, hfiles⟩
                | succ depth =>
                    rw [load_succ depth hstandard hknown hway hfiles]
                    exact .compiled ⟨hstandard, hknown, hway, hfiles⟩

theorem load_cases (settings : Settings) (packages : Resolver) (package : String)
    (σ : Session) :
    (∃ files, Uncompiled settings packages package σ files) ∨
      ∃ r : Except LoadError ModuleTy × Session, (∀ errors, r.1 ≠ .error (.failed errors)) ∧
        ∀ limit depth, load { settings with maxErrors := limit } packages depth package σ = r := by
  cases hstandard : Library.standard? package with
  | some m => exact .inr ⟨(.ok m, σ), fun _ => nofun, fun _ depth => load_of_standard depth hstandard⟩
  | none =>
      cases hknown : σ.compiled.get? package with
      | some m =>
          exact .inr ⟨(.ok m, σ), fun _ => nofun, fun _ depth => load_of_known depth hstandard hknown⟩
      | none =>
          by_cases hway : package ∈ σ.underWay
          · exact .inr ⟨(.error .cycle, σ), fun _ => nofun,
              fun _ depth => load_of_underWay depth hstandard hknown hway⟩
          · cases hfiles : packages.filesAt (settings.pathOf package) with
            | ok files => exact .inl ⟨files, hstandard, hknown, hway, hfiles⟩
            | error reason =>
                exact .inr ⟨(.error (.unavailable reason), σ.request (settings.pathOf package)),
                  fun _ => nofun,
                  fun _ depth => load_of_unavailable depth hstandard hknown hway hfiles⟩

theorem load_stepwise {settings : Settings} {packages : Resolver}
    {P : Nat → String → Session → Except LoadError ModuleTy × Session → Prop}
    (step : ∀ {depth package σ r},
      (∀ nested, depth = nested + 1 →
        ∀ package σ, P nested package σ (load settings packages nested package σ)) →
      LoadStep settings packages package σ depth r → P depth package σ r)
    (depth : Nat) (package : String) (σ : Session) :
    P depth package σ (load settings packages depth package σ) := by
  induction depth generalizing package σ with
  | zero => exact step (fun _ h => nomatch h) (load_step settings packages 0 package σ)
  | succ depth ih =>
      apply step _ (load_step settings packages (depth + 1) package σ)
      rintro _ ⟨⟩
      exact ih

theorem load_induction {settings : Settings} {packages : Resolver}
    {P : String → Session → Except LoadError ModuleTy × Session → Prop}
    (standard : ∀ {package m} σ, Library.standard? package = some m → P package σ (.ok m, σ))
    (known : ∀ {package m} {σ : Session}, σ.compiled.get? package = some m →
      P package σ (.ok m, σ))
    (refused : ∀ package σ, P package σ (.error .cycle, σ))
    (requested : ∀ {package e} (σ : Session), e = .cycle ∨ (∃ reason, e = .unavailable reason) →
      P package σ (.error e, σ.request (settings.pathOf package)))
    (compiled : ∀ {depth package files} {σ : Session},
      (∀ package σ, P package σ (load settings packages depth package σ)) →
      Uncompiled settings packages package σ files →
      P package σ (compile settings (load settings packages depth) package files
        (σ.request (settings.pathOf package))))
    (depth : Nat) (package : String) (σ : Session) :
    P package σ (load settings packages depth package σ) := by
  apply load_stepwise (P := fun _ => P)
  intro depth package σ r ih hstep
  cases hstep with
  | standard h => exact standard σ h
  | known _ h => exact known h
  | underWay => exact refused package σ
  | unavailable => exact requested σ (.inr ⟨_, rfl⟩)
  | tooDeep => exact requested σ (.inl rfl)
  | compiled h => exact compiled (ih _ rfl) h

/-- The session after checks of files, one after another, whether or not they succeed. -/
def after (settings : Settings) (packages : Resolver) (files : List Source.File) : Session :=
  files.foldl (fun σ file => (check settings packages file σ).2) (start settings)

theorem after_induction {settings : Settings} {packages : Resolver} {files : List Source.File}
    {P : Session → Prop} (hstart : P (start settings))
    (hcheck : ∀ file ∈ files, ∀ σ, P σ → P (check settings packages file σ).2) :
    P (after settings packages files) := by
  suffices h : ∀ (fs : List Source.File) (σ : Session), P σ → (∀ f ∈ fs, f ∈ files) →
      P (fs.foldl (fun σ file => (check settings packages file σ).2) σ) from
    h files _ hstart fun _ hf => hf
  intro fs
  induction fs with
  | nil => exact fun σ hσ _ => hσ
  | cons f fs ih =>
      intro σ hσ hmem
      exact ih _ (hcheck f (hmem f List.mem_cons_self) σ hσ) fun g hg =>
        hmem g (List.mem_cons_of_mem _ hg)

end Session
end StaticTyping
