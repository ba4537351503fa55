import StaticTyping.Proofs.Beginnings
import StaticTyping.Proofs.Packages
import StaticTyping.Proofs.Signatures
import StaticTyping.Proofs.WellTyped

/-!
# Forward references

Where the names of modules have no colons in them, a file finds nothing in its namespace but the
root when its check begins.  From the end of its first pass on, the root then binds what it declares
to the final signatures, and so it does not matter whether a name is declared above the place where
it is used or below.
-/

namespace StaticTyping

/-- The module of a file has a name without colons. -/
def Source.File.PlainName (file : Source.File) : Prop :=
  ∀ name, Checker.moduleName? file.stmts = some name → ':' ∉ name.toList

theorem SymbolTable.Released.nested_eq_nil {t u : SymbolTable} (h : t.Released u) {space : String}
    (hspace : (t.scopesOf space).nested = []) : (u.scopesOf space).nested = [] := by
  have hbelow := congrArg List.length (h.below_scopesOf space)
  rw [Scopes.length_below, Scopes.length_below, hspace] at hbelow
  exact List.eq_nil_of_length_eq_zero hbelow

namespace Session

variable {settings : Settings} {packages : Resolver} {σ τ : Session}

/-!
# Beginnings
-/

def Clear (σ : Session) : Prop :=
  ∀ package ∉ σ.underWay, ∀ name, ':' ∉ name.toList →
    (σ.symbols.scopesOf (package ++ "::" ++ name)).nested = []

theorem Clear.of_released (h : Clear σ) (hreleased : σ.Released τ) : Clear τ := by
  intro package hpackage name hname
  rw [hreleased.underWay] at hpackage
  exact hreleased.symbols.nested_eq_nil (h package hpackage name hname)

theorem space_ne_spaceOf {package name own : String} (hpackage : package ∉ σ.underWay)
    (hname : ':' ∉ name.toList) (hown : ':' ∉ own.toList) :
    package ++ "::" ++ name ≠ Checker.spaceOf σ own := by
  unfold Checker.spaceOf
  cases hway : σ.underWay with
  | nil =>
      intro (heq : package ++ "::" ++ name = own)
      apply hown
      rw [← heq]
      simp
  | cons inner outer =>
      intro heq
      apply hpackage
      rw [hway, package_eq_of_space_eq hname hown heq]
      exact List.mem_cons_self

theorem Asks.clear {depth : Nat} {file : Source.File} {package : String}
    (h : Asks settings (load settings packages depth) file σ package τ) (hfile : file.PlainName)
    (hσ : Clear σ) : Clear τ := by
  rcases h with ⟨ask, hask, hdiffers⟩
  by_contra hτ
  let known : Session → Prop := fun υ => υ.underWay = σ.underWay ∧ Clear υ
  have hagree : AgreeWhere known ask (load settings packages depth) := by
    intro q υ hυ
    have hsame : ask q υ = load settings packages depth q υ :=
      hask q υ fun heq => hτ (heq.2 ▸ hυ.2)
    have hreleased := load_releases settings packages depth q υ
    rw [hsame]
    exact ⟨rfl, hreleased.underWay.trans hυ.1, hυ.2.of_released hreleased⟩
  have hspace : ∀ name, Checker.moduleName? file.stmts = some name →
      ApartFromSpace known (Checker.spaceOf σ name) := by
    intro own hown υ t hυ hkept
    refine ⟨hυ.1, ?_⟩
    intro q hq name hname
    have hidle : q ∉ σ.underWay := fun hmem => hq (hυ.1.symm ▸ hmem)
    have hget := hkept _ (space_ne_spaceOf hidle hname (hfile own hown))
    show ((t.spaces.get? _).getD .empty).nested = []
    rw [hget]
    exact hυ.2 q hq name hname
  exact hdiffers (hagree.runFile_within settings file ⟨rfl, hσ⟩ hspace).1

theorem nested_after (settings : Settings) (packages : Resolver) (files : List Source.File)
    (space : String) : ((after settings packages files).symbols.scopesOf space).nested = [] := by
  refine after_induction (P := fun σ => (σ.symbols.scopesOf space).nested = []) ?_ ?_
  · have hreleased := Builtin.bindAll_released .empty settings.preludeSpace
    exact hreleased.nested_eq_nil rfl
  · intro file _ σ hσ
    have hload := load_releases settings packages packages.depth
    have hreleased := Released.runFile settings hload file σ
    exact hreleased.symbols.nested_eq_nil hσ

structure Begun (file : Source.File) (σ : Session) : Prop where
  plain : file.PlainName
  own : ∀ name, Checker.moduleName? file.stmts = some name →
    (σ.symbols.scopesOf (Checker.spaceOf σ name)).nested = []
  clear : Clear σ

theorem Begins.begun {history : List Source.File} {depth : Nat} {file : Source.File}
    (h : Begins Source.File.PlainName settings packages history depth file σ) : Begun file σ := by
  induction h with
  | file files hfile =>
      exact ⟨hfile, fun _ _ => nested_after _ _ _ _, fun _ _ _ _ => nested_after _ _ _ _⟩
  | @package _ depth outer σ package τ files before file rest _ hasks hnew _ hfile ih =>
      have hτ := hasks.clear ih.plain ih.clear
      have hreleased := Released.compileAll settings (load_releases settings packages depth) before
        (.start settings) ((τ.request (settings.pathOf package)).beginPackage package)
      have hbegun : Clear ((τ.request (settings.pathOf package)).beginPackage package) :=
        fun q hq => hτ q fun hmem => hq (List.mem_cons_of_mem _ hmem)
      refine ⟨hfile, ?_, hbegun.of_released hreleased⟩
      intro name hname
      have hspace : Checker.spaceOf _ name = package ++ "::" ++ name :=
        spaceOf_congr (congrArg List.head? hreleased.underWay) name
      rw [hspace]
      exact hreleased.symbols.nested_eq_nil (hτ package hnew.idle name (hfile name hname))

/-!
# The theorem
-/

theorem declared_once {ss : List Source.Stmt} {place : Nat} {stmt : Source.Stmt} {name : String}
    (hstmt : ss[place]? = some stmt) (hname : stmt.declares.head? = some name)
    (honce : (ss.flatMap Source.Stmt.declares).count name = 1) :
    ∃ pre post names, ss = pre ++ stmt :: post ∧ pre.length = place ∧
      stmt.declares = name :: names ∧ name ∉ names ∧ ∀ s ∈ pre ++ post, name ∉ s.declares := by
  rcases List.getElem?_eq_some_iff.mp hstmt with ⟨hplace, rfl⟩
  rcases List.head?_eq_some_iff.mp hname with ⟨names, hnames⟩
  have hsplit : ss = ss.take place ++ ss[place] :: ss.drop (place + 1) := by
    rw [← List.drop_eq_getElem_cons hplace, List.take_append_drop]
  rw [hsplit, List.flatMap_append, List.flatMap_cons, List.count_append, List.count_append, hnames,
    List.count_cons_self] at honce
  refine ⟨ss.take place, ss.drop (place + 1), names, hsplit,
    List.length_take_of_le (Nat.le_of_lt hplace), hnames, ?_, ?_⟩
  · exact List.count_eq_zero.mp (by omega)
  · have hpre := List.count_eq_zero.mp (show List.count name
      ((ss.take place).flatMap Source.Stmt.declares) = 0 by omega)
    have hpost := List.count_eq_zero.mp (show List.count name
      ((ss.drop (place + 1)).flatMap Source.Stmt.declares) = 0 by omega)
    intro s hs hmem
    rcases List.mem_append.mp hs with hs | hs
    · exact hpre (List.mem_flatMap.mpr ⟨s, hs, hmem⟩)
    · exact hpost (List.mem_flatMap.mpr ⟨s, hs, hmem⟩)

/--
Forward references see final signatures.  Wherever the check of a file begins, if its first pass
succeeds, then a function, class, interface or variable whose name is declared only once is bound in
the root scope of the module to what is recorded in its own item.  It is so when the second pass
comes to any of the items, whatever has become of those before.
-/
theorem signatures_final {history : List Source.File} {depth : Nat} {file : Source.File}
    (hbegins : Begins Source.File.PlainName settings packages history depth file σ)
    {module : String} {env : Env}
    (henv : Checker.envOf settings (load settings packages depth) σ file = some (module, env))
    {items : List Item} {s : State}
    (houtline : Checker.pass (Checker.outline file.stmts) env (Checker.initial settings σ) =
      (.ok items, s))
    {place : Nat} {stmt : Source.Stmt} {name : String} (hstmt : file.stmts[place]? = some stmt)
    (hname : stmt.declares.head? = some name)
    (honce : (file.stmts.flatMap Source.Stmt.declares).count name = 1) :
    ∃ item ty, items[place]? = some item ∧ item.recorded? = some (name, ty) ∧
      ∀ before after, items = before ++ after →
        ((Checker.finishing before env s).scopes env).nested = [] ∧
        ((Checker.finishing before env s).scopes env).root.get? name = some ty := by
  rcases declared_once hstmt hname honce with ⟨pre, post, names, hss, rfl, hnames, hfresh, helse⟩
  obtain ⟨hload, hown⟩ : env.load.Releases ∧ (σ.symbols.scopesOf env.space).nested = [] := by
    rcases Option.map_eq_some_iff.mp henv with ⟨_, hmodule, hpair⟩
    cases hpair
    exact ⟨load_releases settings packages depth, hbegins.begun.own module hmodule⟩
  have hrun := Checker.pass_iff.mp houtline
  obtain ⟨item, ty, hitem, hrecorded, hbound⟩ :=
    Checker.outline_settled hload hrun hss helse hnames hfresh
  refine ⟨item, ty, hitem, hrecorded, ?_⟩
  have hreleased : (Checker.initial settings σ).Released s := by
    have h := (Frame.release env hload).closure.outline trivial file.stmts
      (Checker.initial settings σ)
    rw [hrun.value] at h
    exact h
  have hitems := Checker.outline_rebindings hload hrun hss helse hitem hrecorded
  intro before after hsplit
  have hfinal := Checker.finishing_get? hload
    (fun other hother => hitems other (hsplit ▸ List.mem_append_left _ hother)) hbound
  have hnested : ((Checker.finishing before env s).scopes env).nested = [] :=
    (hreleased.trans (Checker.finishing_released hload before s)).session.symbols.nested_eq_nil hown
  unfold Scopes.innermost at hfinal
  rw [hnested] at hfinal
  exact ⟨hnested, hfinal⟩

end Session

namespace Sample

def forwardFile : Source.File :=
  file "main" [returning "broken" [] (expr (.string "one")),
    returning "above" [] (expr (.call (var "below") [] default)),
    returning "below" [] (expr (.int 1))]

def forwardEnv : Env :=
  ⟨{}, "main.aura", "main", Session.load {} sums sums.size⟩

end Sample

namespace Session

/-- A function that is called above its declaration, in a file that fails further up. -/
theorem signatures_final_below :
    (check {} Sample.sums Sample.forwardFile (after {} Sample.sums [Sample.sumFile])).1.isOk =
      false ∧
    ∃ items s, Checker.pass (Checker.outline Sample.forwardFile.stmts) Sample.forwardEnv
        (Checker.initial {} (after {} Sample.sums [Sample.sumFile])) = (.ok items, s) ∧
      ∃ item ty, items[3]? = some item ∧ item.recorded? = some ("below", ty) ∧
        ∀ before after, items = before ++ after →
          ((Checker.finishing before Sample.forwardEnv s).scopes Sample.forwardEnv).nested = [] ∧
          ((Checker.finishing before Sample.forwardEnv s).scopes Sample.forwardEnv).root.get?
            "below" = some ty := by
  have hplain : Sample.forwardFile.PlainName := by
    intro name hname
    have hmain : Checker.moduleName? Sample.forwardFile.stmts = some "main" := rfl
    rw [hmain] at hname
    cases hname
    decide
  have hok : (Checker.pass (Checker.outline Sample.forwardFile.stmts) Sample.forwardEnv
      (Checker.initial {} (after {} Sample.sums [Sample.sumFile]))).1.isOk = true := by
    decide +kernel
  rcases houtline : Checker.pass (Checker.outline Sample.forwardFile.stmts) Sample.forwardEnv
    (Checker.initial {} (after {} Sample.sums [Sample.sumFile])) with ⟨r, s⟩
  rw [houtline] at hok
  cases r with
  | error errors => cases hok
  | ok items =>
      have hbegins : Begins Source.File.PlainName {} Sample.sums
          [Sample.sumFile, Sample.forwardFile] Sample.sums.size Sample.forwardFile
          (after {} Sample.sums [Sample.sumFile]) := .file [Sample.sumFile] hplain
      have henv : Checker.envOf {} (load {} Sample.sums Sample.sums.size)
          (after {} Sample.sums [Sample.sumFile]) Sample.forwardFile =
            some ("main", Sample.forwardEnv) := rfl
      have hplace : Sample.forwardFile.stmts[3]? =
          some (Sample.returning "below" [] (Sample.expr (.int 1))) := rfl
      have hfinal := signatures_final hbegins henv houtline hplace rfl (by decide +kernel)
      exact ⟨by decide +kernel, items, s, rfl, hfinal⟩

end Session
end StaticTyping
