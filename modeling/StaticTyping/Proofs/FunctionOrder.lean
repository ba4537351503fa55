import StaticTyping.Proofs.DeclarationOrder

/-!
# The order of functions

Two neighbouring functions of a file can be exchanged: the check succeeds in both orders or in
neither, and what it gives differs in the places of the two functions alone.  Either of them may
call the other one, since all signatures are bound before the first body is checked.

What they may not do is to leave traces that the other one sees.  A function that is called in a
default value has to be declared first.  A package that one body makes visible, by an import or by a
method call on a string, a list or an error, is visible in all bodies that are checked later, where
it takes precedence over the fields of a parameter or variable of its name.
-/

namespace StaticTyping

open CheckM

variable {D : Discipline} {hidden : List String} {s₁ s₂ : Source.Stmt}
  {pre post : List Source.Stmt}

/-- Two functions with headers that do not mention the other one.  They import nothing and name no
hidden import. -/
inductive Source.IndependentFunctions (D : Discipline) (hidden : List String) :
    Source.Stmt → Source.Stmt → Prop where
  | intro {h₁ h₂ body₁ body₂ span₁ span₂} :
      Source.Head.meets (.apart [h₂.name.name]) h₁ →
      Source.Head.meets (.apart [h₁.name.name]) h₂ →
      Source.Stmt.meets (D.closed hidden) ⟨.function h₁ body₁, span₁⟩ →
      Source.Stmt.meets (D.closed hidden) ⟨.function h₂ body₂, span₂⟩ →
      Source.IndependentFunctions D hidden ⟨.function h₁ body₁, span₁⟩ ⟨.function h₂ body₂, span₂⟩

namespace Source.IndependentFunctions

variable (h : Source.IndependentFunctions D hidden s₁ s₂)
include h

theorem symm : Source.IndependentFunctions D hidden s₂ s₁ := by
  cases h with
  | intro hhead₁ hhead₂ hclosed₁ hclosed₂ => exact .intro hhead₂ hhead₁ hclosed₂ hclosed₁

theorem moduleName? : Checker.moduleName? (pre ++ s₁ :: s₂ :: post) =
    Checker.moduleName? (pre ++ s₂ :: s₁ :: post) := by
  unfold Checker.moduleName?
  cases h with
  | intro => simp only [List.findSome?_append, List.findSome?_cons]

theorem exchangeable (hdisjoint : ∀ name ∈ s₁.declares, name ∉ s₂.declares) (env : Env) :
    Checker.Exchangeable env s₁ s₂ := by
  cases h with
  | intro hhead₁ hhead₂ _ _ =>
      exact {
        imports := .idle rfl rfl
        interfaces := .idle rfl rfl
        classes := .idle rfl rfl
        functions := .of_declares rfl rfl (Checker.functionPhase_reporting env)
          (Checker.functionPhase_declares hhead₁ rfl) (Checker.functionPhase_declares hhead₂ rfl)
          hdisjoint
        values := .idle rfl rfl
        forward := fun _ hb => absurd hb List.not_mem_nil }

theorem selfContained : s₁.SelfContained D hidden ∧ s₂.SelfContained D hidden := by
  cases h with
  | intro _ _ hclosed₁ hclosed₂ => exact ⟨⟨.inr rfl, hclosed₁⟩, ⟨.inr rfl, hclosed₂⟩⟩

end Source.IndependentFunctions

theorem Checker.runFile_exchange_functions {settings : Settings} {load : Loader} {σ τ : Session}
    {path : String} {f : Typed.File} (hload : load.Sound D)
    (hkeeps : ∀ package (σ : Session), σ.symbols.KeepsImports (load package σ).2.symbols)
    (hσ : σ.WellFormed D)
    (hmeets : ∀ s ∈ pre ++ s₁ :: s₂ :: post, Source.Met (s.meets D.condition))
    (hnames : ((pre ++ s₁ :: s₂ :: post).flatMap Source.Stmt.declares).Nodup)
    (h : Source.IndependentFunctions D (Source.hiddenImports (pre ++ post)) s₁ s₂)
    (hrun : runFile settings load ⟨path, pre ++ s₁ :: s₂ :: post⟩ σ = (.ok f, τ)) :
    ∃ l x y r, f.stmts = l ++ x :: y :: r ∧ l.length = pre.length ∧
      runFile settings load ⟨path, pre ++ s₂ :: s₁ :: post⟩ σ =
        (.ok { f with stmts := l ++ y :: x :: r }, τ) := by
  have hdisjoint : ∀ name ∈ s₁.declares, name ∉ s₂.declares := fun name hname =>
    Source.not_declared_elsewhere hnames hname s₂ (List.mem_append_right _ List.mem_cons_self)
  obtain ⟨hs₁, hs₂⟩ := h.selfContained
  refine runFile_exchange_outlined hload hkeeps hσ hmeets h.moduleName? (h.exchangeable hdisjoint)
    (fun henv hlength hs hvisible houtlined hl hx hy => ?_) hrun
  subst henv
  exact finishItem_exchange hload hkeeps hs₁ hs₂ hmeets hnames hlength hs hvisible houtlined hl hx
    hy

theorem Checker.runFile_isOk_exchange_functions {settings : Settings} {load : Loader} {σ : Session}
    {path : String} (hload : load.Sound D)
    (hkeeps : ∀ package (σ : Session), σ.symbols.KeepsImports (load package σ).2.symbols)
    (hσ : σ.WellFormed D)
    (hmeets : ∀ s ∈ pre ++ s₁ :: s₂ :: post, Source.Met (s.meets D.condition))
    (hnames : ((pre ++ s₁ :: s₂ :: post).flatMap Source.Stmt.declares).Nodup)
    (h : Source.IndependentFunctions D (Source.hiddenImports (pre ++ post)) s₁ s₂)
    (hok : (runFile settings load ⟨path, pre ++ s₁ :: s₂ :: post⟩ σ).1.isOk) :
    (runFile settings load ⟨path, pre ++ s₂ :: s₁ :: post⟩ σ).1.isOk := by
  obtain ⟨f, τ, hrun⟩ := runFile_isOk.mp hok
  obtain ⟨l, x, y, r, _, _, hexchanged⟩ :=
    runFile_exchange_functions hload hkeeps hσ hmeets hnames h hrun
  exact runFile_isOk.mpr ⟨_, _, hexchanged⟩

/-- Two neighbouring functions that are independent of each other can be exchanged, in any file
whose declared names are distinct and in any session: the check succeeds in both orders or in
neither, and it gives the same typed statements, with the two functions exchanged. -/
theorem Session.check_exchange_functions (settings : Settings) (packages : Resolver)
    (files : List Source.File) (path : String) (pre post : List Source.Stmt) (s₁ s₂ : Source.Stmt)
    (hpackages : packages.Meets Discipline.asWritten.condition)
    (hfiles : ∀ f ∈ files, f.meets Discipline.asWritten.condition)
    (hfile : Source.File.meets Discipline.asWritten.condition ⟨path, pre ++ s₁ :: s₂ :: post⟩)
    (hnames : ((pre ++ s₁ :: s₂ :: post).flatMap Source.Stmt.declares).Nodup)
    (h : Source.IndependentFunctions .asWritten (Source.hiddenImports (pre ++ post)) s₁ s₂) :
    (check settings packages ⟨path, pre ++ s₁ :: s₂ :: post⟩
        (after settings packages files)).1.isOk =
      (check settings packages ⟨path, pre ++ s₂ :: s₁ :: post⟩
        (after settings packages files)).1.isOk ∧
    ∀ f τ, check settings packages ⟨path, pre ++ s₁ :: s₂ :: post⟩
        (after settings packages files) = (.ok f, τ) →
      ∃ l x y r, f.stmts = l ++ x :: y :: r ∧ l.length = pre.length ∧
        check settings packages ⟨path, pre ++ s₂ :: s₁ :: post⟩ (after settings packages files) =
          (.ok { f with stmts := l ++ y :: x :: r }, τ) := by
  have hload := load_sound settings hpackages packages.depth
  have hkeeps := load_keepsImports settings packages packages.depth
  have hσ := after_wellFormed settings hpackages hfiles
  have hmeets := Source.File.meets_of_mem hfile
  -- what is asked of the file does not depend on the order
  have hperm : (pre ++ s₂ :: s₁ :: post).Perm (pre ++ s₁ :: s₂ :: post) :=
    (List.Perm.swap s₁ s₂ post).append_left pre
  have hnames' := (hperm.flatMap_right Source.Stmt.declares).nodup_iff.mpr hnames
  constructor
  · exact Bool.eq_iff_iff.mpr
      ⟨Checker.runFile_isOk_exchange_functions hload hkeeps hσ hmeets hnames h,
        Checker.runFile_isOk_exchange_functions hload hkeeps hσ
          (fun s hs => hmeets s (hperm.mem_iff.mp hs)) hnames' h.symm⟩
  · intro f τ hrun
    exact Checker.runFile_exchange_functions hload hkeeps hσ hmeets hnames h hrun

namespace Sample

/-- A function that asks a string for its length. -/
def width : Source.Stmt :=
  returning "width" [] (expr (.call (get (expr (.string "shelf")) "length") [] default))

def area : Source.Stmt :=
  returning "area" [⟨ident "height", .int, false, some (expr (.int 2))⟩]
    (expr (.call (get (var "sums") "sum")
      [⟨none, var "height"⟩, ⟨none, expr (.call (var "width") [] default)⟩] default))

/-- A class with a size. -/
def box : Source.Stmt :=
  stmt (.classDecl ⟨ident "Box", .isPrivate, [⟨ident "size", .int, false, none⟩], [], []⟩)

/-- A function with a parameter that is called like the package of strings. -/
def capacity : Source.Stmt :=
  returning "capacity" [param "strings" "Box"] (get (var "strings") "size")

/-- A function that calls another one in a default value. -/
def widest : Source.Stmt :=
  returning "widest" [⟨ident "widths", .list .int, false,
    some (expr (.list [expr (.call (var "width") [] default)]))⟩] (expr (.int 1))

/-- A function that imports a package in its body. -/
def importing : Source.Stmt :=
  stmt (.function ⟨ident "importing", .isPrivate, [], none⟩
    (block [stmt (.importOne (ident "aura/strings") none)]))

end Sample

theorem Session.check_exchange_functions_area :
    Source.IndependentFunctions .asWritten (Source.hiddenImports (Sample.sumFile.stmts ++ []))
      Sample.width Sample.area ∧
    ∃ f τ, check {} Sample.sums ⟨"totals.aura", Sample.sumFile.stmts ++ [Sample.width, Sample.area]⟩
        (after {} Sample.sums [Sample.listingFile]) = (.ok f, τ) ∧
      ∃ l x y r, f.stmts = l ++ x :: y :: r ∧ l.length = 4 ∧
        check {} Sample.sums ⟨"totals.aura", Sample.sumFile.stmts ++ [Sample.area, Sample.width]⟩
          (after {} Sample.sums [Sample.listingFile]) =
            (.ok { f with stmts := l ++ y :: x :: r }, τ) := by
  have hindependent : Source.IndependentFunctions .asWritten
      (Source.hiddenImports (Sample.sumFile.stmts ++ [])) Sample.width Sample.area :=
    .intro rfl rfl rfl rfl
  have hok : (check {} Sample.sums ⟨"totals.aura", Sample.sumFile.stmts ++
      [Sample.width, Sample.area]⟩ (after {} Sample.sums [Sample.listingFile])).1.isOk = true := by
    decide +kernel
  obtain ⟨f, τ, hrun⟩ := Checker.runFile_isOk.mp hok
  have hexchange := check_exchange_functions {} Sample.sums [Sample.listingFile] "totals.aura"
    Sample.sumFile.stmts [] Sample.width Sample.area (PackageIndex.meets_resolver rfl)
    (List.forall_mem_singleton.mpr rfl) rfl (by decide) hindependent
  exact ⟨hindependent, f, τ, hrun, hexchange.2 f τ hrun⟩

/-- The order of functions matters where a parameter is called like a package that another body has
made visible, and where a default value calls another function. -/
theorem Session.function_order_matters :
    (Sample.distinct [Sample.box, Sample.width, Sample.capacity] = true ∧
      Sample.accepted [Sample.box, Sample.width, Sample.capacity] = false ∧
      Sample.accepted [Sample.box, Sample.capacity, Sample.width] = true) ∧
    (Sample.distinct [Sample.box, Sample.importing, Sample.capacity] = true ∧
      Sample.accepted [Sample.box, Sample.importing, Sample.capacity] = false ∧
      Sample.accepted [Sample.box, Sample.capacity, Sample.importing] = true) ∧
    (Sample.distinct [Sample.widest, Sample.width] = true ∧
      Sample.accepted [Sample.widest, Sample.width] = false ∧
      Sample.accepted [Sample.width, Sample.widest] = true) := by
  decide +kernel

end StaticTyping
