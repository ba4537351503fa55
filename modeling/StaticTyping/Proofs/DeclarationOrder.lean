import StaticTyping.Proofs.Order.Bound
import StaticTyping.Proofs.Order.Imported
import StaticTyping.Proofs.WellTyped

/-!
# The order of declarations

Two neighbouring classes, or two neighbouring interfaces, of a file can be exchanged without
changing whether the check succeeds, if neither mentions the other in what it declares of itself.
If one does, the order matters: the signature that is made first knows the other declaration by its
name alone, and it is not made again.

Classes leave a trace when they are checked, the packages that they make visible.  So they are
asked to import nothing, and not to name a standard package that the rest of the file does not
import.
-/

namespace StaticTyping

open CheckM

variable {D : Discipline} {hidden : List String} {s₁ s₂ : Source.Stmt}
  {pre post : List Source.Stmt}

/-- Two classes or two interfaces with headers that do not mention what the other one declares.
Classes import nothing and name no hidden import. -/
inductive Source.Independent (D : Discipline) (hidden : List String) :
    Source.Stmt → Source.Stmt → Prop where
  | classes {d₁ d₂ span₁ span₂} :
      Source.Stmt.headMeets (.apart [d₂.name.name]) ⟨.classDecl d₁, span₁⟩ →
      Source.Stmt.headMeets (.apart [d₁.name.name]) ⟨.classDecl d₂, span₂⟩ →
      Source.Stmt.meets (D.closed hidden) ⟨.classDecl d₁, span₁⟩ →
      Source.Stmt.meets (D.closed hidden) ⟨.classDecl d₂, span₂⟩ →
      Source.Independent D hidden ⟨.classDecl d₁, span₁⟩ ⟨.classDecl d₂, span₂⟩
  | interfaces {d₁ d₂ span₁ span₂} :
      Source.Stmt.headMeets (.apart (Source.Stmt.declares ⟨.interfaceDecl d₂, span₂⟩))
        ⟨.interfaceDecl d₁, span₁⟩ →
      Source.Stmt.headMeets (.apart (Source.Stmt.declares ⟨.interfaceDecl d₁, span₁⟩))
        ⟨.interfaceDecl d₂, span₂⟩ →
      Source.Independent D hidden ⟨.interfaceDecl d₁, span₁⟩ ⟨.interfaceDecl d₂, span₂⟩

theorem Source.Independent.symm (h : Source.Independent D hidden s₁ s₂) :
    Source.Independent D hidden s₂ s₁ := by
  cases h with
  | classes hhead₁ hhead₂ hclosed₁ hclosed₂ => exact .classes hhead₂ hhead₁ hclosed₂ hclosed₁
  | interfaces hhead₁ hhead₂ => exact .interfaces hhead₂ hhead₁

theorem Source.Independent.exchangeable (h : Source.Independent D hidden s₁ s₂)
    (hdisjoint : ∀ name ∈ s₁.declares, name ∉ s₂.declares) (env : Env) :
    Checker.Exchangeable env s₁ s₂ := by
  cases h with
  | @classes d₁ d₂ span₁ span₂ hhead₁ hhead₂ _ _ =>
      have hne : d₁.name.name ≠ d₂.name.name := fun heq =>
        hdisjoint d₁.name.name List.mem_cons_self (List.mem_singleton.mpr heq)
      exact ⟨.idle rfl rfl, .idle rfl rfl,
        .of_declares rfl rfl (Checker.classPhase_reporting env)
          (Checker.classPhase_declares hhead₁ rfl) (Checker.classPhase_declares hhead₂ rfl)
          hdisjoint, .idle rfl rfl, .idle rfl rfl,
        List.forall_mem_singleton.mpr (List.forall_mem_singleton.mpr hne)⟩
  | @interfaces d₁ d₂ span₁ span₂ hhead₁ hhead₂ =>
      have hne : d₁.name.name ≠ d₂.name.name := fun heq =>
        hdisjoint d₁.name.name List.mem_cons_self (heq ▸ List.mem_cons_self)
      exact ⟨.idle rfl rfl,
        .of_declares rfl rfl (Checker.interfacePhase_reporting env)
          (Checker.interfacePhase_declares hhead₁ rfl) (Checker.interfacePhase_declares hhead₂ rfl)
          hdisjoint, .idle rfl rfl, .idle rfl rfl, .idle rfl rfl,
        List.forall_mem_singleton.mpr (List.forall_mem_singleton.mpr hne)⟩

theorem Checker.moduleName?_exchange (h : Source.Independent D hidden s₁ s₂) :
    moduleName? (pre ++ s₁ :: s₂ :: post) = moduleName? (pre ++ s₂ :: s₁ :: post) := by
  unfold moduleName?
  cases h with
  | classes => simp only [List.findSome?_append, List.findSome?_cons]
  | interfaces => simp only [List.findSome?_append, List.findSome?_cons]

/-!
# The second pass
-/

theorem Source.not_declared_elsewhere {s : Source.Stmt}
    (hnames : ((pre ++ s :: post).flatMap Source.Stmt.declares).Nodup) {name : String}
    (hname : name ∈ s.declares) : ∀ t ∈ pre ++ post, name ∉ t.declares := by
  have hsplit : (s.declares ++ (pre ++ post).flatMap Source.Stmt.declares).Nodup :=
    (List.perm_middle.flatMap_right Source.Stmt.declares).nodup_iff.mp hnames
  intro t ht hother
  exact (List.nodup_append.mp hsplit).2.2 name hname name (List.mem_flatMap.mpr ⟨t, ht, hother⟩) rfl

theorem Checker.finishItem_exchange {env : Env} (hload : env.load.Sound D)
    (hkeeps : ∀ package (σ : Session), σ.symbols.KeepsImports (env.load package σ).2.symbols)
    (h₁ : s₁.SelfContained D hidden) (h₂ : s₂.SelfContained D hidden)
    (hmeets : ∀ s ∈ pre ++ s₁ :: s₂ :: post, Source.Met (s.meets D.condition))
    (hnames : ((pre ++ s₁ :: s₂ :: post).flatMap Source.Stmt.declares).Nodup)
    {l r : List Item} {x y : Item} {Γ : Context} {s t u v : State} {ts : List Typed.Stmt}
    {x' y' : Typed.Stmt} (hlength : l.length = pre.length) (hs : s.WellFormed D)
    (hvisible : s.Visible env hidden)
    (houtlined : Outlined D (pre ++ s₁ :: s₂ :: post) Γ (l ++ x :: y :: r) (s.context env))
    (hl : (finish l).Succeeds env s ts t) (hx : (finishItem x).Succeeds env t x' u)
    (hy : (finishItem y).Succeeds env u y' v) :
    ∃ w, finishItem y env t = (.ok y', w) ∧ finishItem x env w = (.ok x', v) := by
  obtain ⟨houtlined', hlength'⟩ := houtlined.shift hlength
  have hnames' : (((pre ++ [s₁]) ++ s₂ :: post).flatMap Source.Stmt.declares).Nodup := by
    simpa only [List.append_assoc, List.singleton_append] using hnames
  have hother₁ := fun name (hname : name ∈ s₁.declares) =>
    Source.not_declared_elsewhere hnames hname
  have hother₂ := fun name (hname : name ∈ s₂.declares) =>
    Source.not_declared_elsewhere hnames' hname
  rcases houtlined.known_at hlength h₁ hother₁ with ⟨name₁, hname₁, ty₁, hknown₁, hbinds₁⟩
  rcases houtlined'.known_at hlength' h₂ hother₂ with ⟨name₂, hname₂, ty₂, hknown₂, hbinds₂⟩
  -- what comes before leaves the state well-formed, and both names bound
  rcases houtlined.row_at hlength with ⟨⟨_, _, hpre⟩, _⟩
  have hprefix := Premises.finish (.of_load hload)
    (fun s hs => hmeets s (List.mem_append_left _ hs)) hpre
  rcases hprefix.of_succeeds hs hl with ⟨ht, hchain⟩
  have hbinds₁' := hpre.binds_finished hchain
    (fun s hs => hother₁ name₁ hname₁ s (List.mem_append_left _ hs)) hbinds₁
  have hbinds₂' := hpre.binds_finished hchain
    (fun s hs => hother₂ name₂ hname₂ s (List.mem_append_left _ (List.mem_append_left _ hs)))
    hbinds₂
  have hvisible' : t.Visible env hidden := fun p hp hhidden =>
    (hvisible p hp hhidden).of_keeps hkeeps
      ((Frame.importing env hkeeps).closure.finish trivial l) hl.value
  exact hknown₁.exchange hknown₂ hload ht hvisible' hbinds₁' hbinds₂' hx.value hy.value

theorem Source.Independent.finishItem {env : Env} (hload : env.load.Sound D)
    (hkeeps : ∀ package (σ : Session), σ.symbols.KeepsImports (env.load package σ).2.symbols)
    (h : Source.Independent D hidden s₁ s₂)
    (hmeets : ∀ s ∈ pre ++ s₁ :: s₂ :: post, Source.Met (s.meets D.condition))
    (hnames : ((pre ++ s₁ :: s₂ :: post).flatMap Source.Stmt.declares).Nodup)
    {l r : List Item} {x y : Item} {Γ : Context} {s t u v : State} {ts : List Typed.Stmt}
    {x' y' : Typed.Stmt} (hlength : l.length = pre.length) (hs : s.WellFormed D)
    (hvisible : s.Visible env hidden)
    (houtlined : Outlined D (pre ++ s₁ :: s₂ :: post) Γ (l ++ x :: y :: r) (s.context env))
    (hl : (Checker.finish l).Succeeds env s ts t) (hx : (Checker.finishItem x).Succeeds env t x' u)
    (hy : (Checker.finishItem y).Succeeds env u y' v) :
    ∃ w, Checker.finishItem y env t = (.ok y', w) ∧ Checker.finishItem x env w = (.ok x', v) := by
  cases h with
  | interfaces =>
      -- interfaces are done with, nothing is left to check
      rcases houtlined.row_at hlength with ⟨_, _, _, hrow₁⟩
      obtain ⟨houtlined', hlength'⟩ := houtlined.shift hlength
      rcases houtlined'.row_at hlength' with ⟨_, _, _, hrow₂⟩
      rcases hrow₁.1 with ⟨t₁, rfl, _⟩
      rcases hrow₂.1 with ⟨t₂, rfl, _⟩
      cases hx.value
      cases hy.value
      exact ⟨t, rfl, rfl⟩
  | classes _ _ hclosed₁ hclosed₂ =>
      exact Checker.finishItem_exchange hload hkeeps ⟨.inl rfl, hclosed₁⟩ ⟨.inl rfl, hclosed₂⟩
        hmeets hnames hlength hs hvisible houtlined hl hx hy

/-!
# Files
-/

/-- The standard packages that come on demand and are not imported by statements, by the names
they get. -/
def Source.hiddenImports (ss : List Source.Stmt) : List String :=
  (Library.onDemand.map Prod.snd).filter fun localName =>
    !(ss.flatMap fun s => s.imports.map Source.Import.space).contains localName

theorem Source.imported_of_not_hidden {ss : List Source.Stmt} {p : String × String}
    (hp : p ∈ Library.onDemand) (hhidden : p.2 ∉ Source.hiddenImports ss) :
    ∃ s ∈ ss, ∃ i ∈ s.imports, i.space = p.2 := by
  have hnot : ¬ (!(ss.flatMap fun s => s.imports.map Source.Import.space).contains p.2) = true :=
    fun h => hhidden (List.mem_filter.mpr ⟨List.mem_map_of_mem hp, h⟩)
  rw [Bool.not_eq_true, Bool.not_eq_false', List.contains_iff_mem] at hnot
  rcases List.mem_flatMap.mp hnot with ⟨s, hs, hspace⟩
  rcases List.mem_map.mp hspace with ⟨i, hi, hsame⟩
  exact ⟨s, hs, i, hi, hsame⟩

theorem Checker.outline_visible {env : Env}
    (hkeeps : ∀ package (σ : Session), σ.symbols.KeepsImports (env.load package σ).2.symbols)
    {items : List Item} {s t : State}
    (houtline : (outline (pre ++ s₁ :: s₂ :: post)).Succeeds env s items t) :
    t.Visible env (Source.hiddenImports (pre ++ post)) := by
  intro p hp hhidden
  rcases Source.imported_of_not_hidden hp hhidden with ⟨stmt, hstmt, i, hi, hsame⟩
  rw [← hsame]
  refine outline_imported hkeeps houtline stmt ?_ i hi
  rcases List.mem_append.mp hstmt with hstmt | hstmt
  · exact List.mem_append_left _ hstmt
  · exact List.mem_append_right _ (.tail _ (.tail _ hstmt))

theorem Checker.runFile_exchange_outlined {settings : Settings} {load : Loader} {σ τ : Session}
    {path : String} {f : Typed.File} (hload : load.Sound D)
    (hkeeps : ∀ package (σ : Session), σ.symbols.KeepsImports (load package σ).2.symbols)
    (hσ : σ.WellFormed D)
    (hmeets : ∀ s ∈ pre ++ s₁ :: s₂ :: post, Source.Met (s.meets D.condition))
    (hmodule : moduleName? (pre ++ s₁ :: s₂ :: post) = moduleName? (pre ++ s₂ :: s₁ :: post))
    (hfirst : ∀ env, Exchangeable env s₁ s₂)
    (hsecond : ∀ {env : Env} {l r : List Item} {x y : Item} {Γ : Context} {s t u v : State}
      {ts : List Typed.Stmt} {x' y' : Typed.Stmt}, env.load = load → l.length = pre.length →
      s.WellFormed D → s.Visible env (Source.hiddenImports (pre ++ post)) →
      Outlined D (pre ++ s₁ :: s₂ :: post) Γ (l ++ x :: y :: r) (s.context env) →
      (finish l).Succeeds env s ts t → (finishItem x).Succeeds env t x' u →
      (finishItem y).Succeeds env u y' v →
      ∃ w, finishItem y env t = (.ok y', w) ∧ finishItem x env w = (.ok x', v))
    (hrun : runFile settings load ⟨path, pre ++ s₁ :: s₂ :: post⟩ σ = (.ok f, τ)) :
    ∃ l x y r, f.stmts = l ++ x :: y :: r ∧ l.length = pre.length ∧
      runFile settings load ⟨path, pre ++ s₂ :: s₁ :: post⟩ σ =
        (.ok { f with stmts := l ++ y :: x :: r }, τ) := by
  refine runFile_exchange_of hmodule hfirst
    (fun {name env l r x y s} henv hlength houtline => ?_) hrun
  cases henv
  obtain ⟨hs, houtlined⟩ :=
    ((Premises.of_load hload).outline hmeets).of_succeeds (hσ.initial settings) houtline
  have hvisible := outline_visible hkeeps houtline
  intro ts t u v x' y' hl hx hy
  exact hsecond rfl hlength hs hvisible houtlined hl hx hy

theorem Checker.runFile_isOk {settings : Settings} {load : Loader} {file : Source.File}
    {σ : Session} : (runFile settings load file σ).1.isOk ↔
      ∃ f τ, runFile settings load file σ = (.ok f, τ) := by
  rcases runFile settings load file σ with ⟨r, τ⟩
  cases r with
  | error errors => simp [Except.isOk, Except.toBool]
  | ok f => simp [Except.isOk, Except.toBool]

theorem Checker.runFile_exchange {settings : Settings} {load : Loader} {σ : Session} {path : String}
    (hload : load.Sound D)
    (hkeeps : ∀ package (σ : Session), σ.symbols.KeepsImports (load package σ).2.symbols)
    (hσ : σ.WellFormed D)
    (hmeets : ∀ s ∈ pre ++ s₁ :: s₂ :: post, Source.Met (s.meets D.condition))
    (hnames : ((pre ++ s₁ :: s₂ :: post).flatMap Source.Stmt.declares).Nodup)
    (h : Source.Independent D (Source.hiddenImports (pre ++ post)) s₁ s₂)
    (hok : (runFile settings load ⟨path, pre ++ s₁ :: s₂ :: post⟩ σ).1.isOk) :
    (runFile settings load ⟨path, pre ++ s₂ :: s₁ :: post⟩ σ).1.isOk := by
  have hdisjoint : ∀ name ∈ s₁.declares, name ∉ s₂.declares := fun name hname =>
    Source.not_declared_elsewhere hnames hname s₂ (List.mem_append_right _ List.mem_cons_self)
  obtain ⟨f, τ, hrun⟩ := runFile_isOk.mp hok
  obtain ⟨l, x, y, r, _, _, hexchanged⟩ := runFile_exchange_outlined hload hkeeps hσ hmeets
    (moduleName?_exchange h) (h.exchangeable hdisjoint)
    (fun henv hlength hs hvisible houtlined hl hx hy => by
      subst henv
      exact h.finishItem hload hkeeps hmeets hnames hlength hs hvisible houtlined hl hx hy) hrun
  exact runFile_isOk.mpr ⟨_, _, hexchanged⟩

/-- Two neighbouring declarations that are independent of each other can be exchanged, in any file
whose declared names are distinct and in any session. -/
theorem Session.check_isOk_exchange (settings : Settings) (packages : Resolver)
    (files : List Source.File) (path : String) (pre post : List Source.Stmt) (s₁ s₂ : Source.Stmt)
    (hpackages : packages.Meets Discipline.asWritten.condition)
    (hfiles : ∀ f ∈ files, f.meets Discipline.asWritten.condition)
    (hfile : Source.File.meets Discipline.asWritten.condition ⟨path, pre ++ s₁ :: s₂ :: post⟩)
    (hnames : ((pre ++ s₁ :: s₂ :: post).flatMap Source.Stmt.declares).Nodup)
    (h : Source.Independent .asWritten (Source.hiddenImports (pre ++ post)) s₁ s₂) :
    (check settings packages ⟨path, pre ++ s₁ :: s₂ :: post⟩
        (after settings packages files)).1.isOk =
      (check settings packages ⟨path, pre ++ s₂ :: s₁ :: post⟩
        (after settings packages files)).1.isOk := by
  have hload := load_sound settings hpackages packages.depth
  have hkeeps := load_keepsImports settings packages packages.depth
  have hσ := after_wellFormed settings hpackages hfiles
  have hmeets := Source.File.meets_of_mem hfile
  -- what is asked of the file does not depend on the order
  have hperm : (pre ++ s₂ :: s₁ :: post).Perm (pre ++ s₁ :: s₂ :: post) :=
    (List.Perm.swap s₁ s₂ post).append_left pre
  have hnames' := (hperm.flatMap_right Source.Stmt.declares).nodup_iff.mpr hnames
  exact Bool.eq_iff_iff.mpr
    ⟨Checker.runFile_exchange hload hkeeps hσ hmeets hnames h,
      Checker.runFile_exchange hload hkeeps hσ (fun s hs => hmeets s (hperm.mem_iff.mp hs)) hnames'
        h.symm⟩

namespace Sample

/-- A class that makes a basket and asks a string for its length, in the bodies of its methods. -/
def shelf : Source.Stmt :=
  stmt (.classDecl ⟨ident "Shelf", .isPrivate, [],
    [⟨countHead, block [stmt (.ret (some (expr (.call
        (get (expr (.call (var "Basket") [] default)) "count") [] default))))], default⟩,
      ⟨⟨ident "width", .isPublic, [], some .int⟩, block [stmt (.ret (some
        (expr (.call (get (expr (.string "shelf")) "length") [] default))))], default⟩], []⟩)

/-- A function that returns the basket of a cart as something countable. -/
def pick : Source.Stmt :=
  stmt (.function ⟨ident "pick", .isPrivate, [param "cart" "Cart"], some (.unknown "Countable")⟩
    (block [stmt (.ret (some (get (var "cart") "basket")))]))

/-- An interface that asks for a method on lists of something countable. -/
def carrier : Source.Stmt :=
  stmt (.interfaceDecl ⟨ident "Carrier", .isPrivate, [⟨⟨ident "carry", .isPublic,
    [⟨ident "items", .list (.unknown "Countable"), false, none⟩], some .int⟩, default⟩]⟩)

/-- A function that hands a list of a cart, which is not countable, to a carrier. -/
def haul : Source.Stmt :=
  stmt (.function ⟨ident "haul", .isPrivate, [param "carrier" "Carrier", param "cart" "Cart"],
      some .int⟩
    (block [stmt (.ret (some (expr (.call (get (var "carrier") "carry")
      [⟨none, expr (.list [var "cart"])⟩] default))))]))

/-- A class that names the package of strings. -/
def label : Source.Stmt :=
  stmt (.classDecl ⟨ident "Label", .isPrivate, [],
    [⟨countHead, block [stmt (.ret (some (expr (.call (get (var "strings") "length")
      [⟨none, expr (.string "label")⟩] default))))], default⟩], []⟩)

/-- Whether a file is checked with success in a session that has just begun. -/
def accepted (ss : List Source.Stmt) : Bool :=
  (Session.check {} .empty (file "main" ss) (Session.start {})).1.isOk

/-- Whether statements declare distinct names, and none of a builtin function. -/
def distinct (ss : List Source.Stmt) : Bool :=
  decide (ss.flatMap Source.Stmt.declares ++ Builtin.functions.map NamedFunction.name).Nodup

end Sample

theorem Session.check_isOk_exchange_shelf :
    Source.Independent .asWritten (Source.hiddenImports (Sample.sumFile.stmts ++ [Sample.cart]))
      Sample.shelf Sample.basket ∧
    (check {} Sample.sums ⟨"totals.aura", Sample.sumFile.stmts ++
        [Sample.shelf, Sample.basket, Sample.cart]⟩
      (after {} Sample.sums [Sample.listingFile])).1.isOk = true ∧
    (check {} Sample.sums ⟨"totals.aura", Sample.sumFile.stmts ++
        [Sample.basket, Sample.shelf, Sample.cart]⟩
      (after {} Sample.sums [Sample.listingFile])).1.isOk = true := by
  have hindependent : Source.Independent .asWritten
      (Source.hiddenImports (Sample.sumFile.stmts ++ [Sample.cart])) Sample.shelf Sample.basket :=
    .classes rfl rfl rfl rfl
  have hok : (check {} Sample.sums ⟨"totals.aura", Sample.sumFile.stmts ++
        [Sample.shelf, Sample.basket, Sample.cart]⟩
      (after {} Sample.sums [Sample.listingFile])).1.isOk = true := rfl
  have hsame := check_isOk_exchange {} Sample.sums [Sample.listingFile] "totals.aura"
    Sample.sumFile.stmts [Sample.cart] Sample.shelf Sample.basket (PackageIndex.meets_resolver rfl)
    (List.forall_mem_singleton.mpr rfl) rfl (by decide) hindependent
  exact ⟨hindependent, hok, hsame.symm.trans hok⟩

/-- The order matters where a class mentions another one in its header, where an interface mentions
another one, and where a class names a package that another one has made visible. -/
theorem Session.order_matters :
    (Sample.distinct [Sample.countable, Sample.cart, Sample.basket, Sample.pick] = true ∧
      Sample.accepted [Sample.countable, Sample.cart, Sample.basket, Sample.pick] = false ∧
      Sample.accepted [Sample.countable, Sample.basket, Sample.cart, Sample.pick] = true) ∧
    (Sample.distinct [Sample.countable, Sample.carrier, Sample.basket, Sample.cart,
        Sample.haul] = true ∧
      Sample.accepted [Sample.countable, Sample.carrier, Sample.basket, Sample.cart,
        Sample.haul] = false ∧
      Sample.accepted [Sample.carrier, Sample.countable, Sample.basket, Sample.cart,
        Sample.haul] = true) ∧
    (Sample.distinct [Sample.basket, Sample.label, Sample.shelf] = true ∧
      Sample.accepted [Sample.basket, Sample.label, Sample.shelf] = false ∧
      Sample.accepted [Sample.basket, Sample.shelf, Sample.label] = true) :=
  ⟨⟨rfl, rfl, rfl⟩, ⟨rfl, rfl, rfl⟩, rfl, rfl, rfl⟩

end StaticTyping
