import StaticTyping.Proofs.Loading
import StaticTyping.Proofs.Pairing.Session
import StaticTyping.Proofs.WellTyped

/-!
# Files without comments

Comments are statements, but no check looks at them.  Only the last statement of a block decides
what the block gives, so a comment behind it takes the value away.  In files where no block is
closed by such a comment, all comments can be left out: the check succeeds as before, and gives
the same typed file without comments.
-/

namespace StaticTyping

open CheckM Source

/-!
# Sessions without comments
-/

/-- A session without the comments in its types. -/
def Session.strip (cut : Cut) (σ : Session) : Session where
  symbols := σ.symbols.strip cut
  compiled := σ.compiled.map (ModuleTy.strip cut)
  underWay := σ.underWay
  requested := σ.requested

theorem Session.strip_eq_self {cut : Cut} (h : cut.defaults = .nothing) (σ : Session) :
    σ.strip cut = σ := by
  rcases σ with ⟨symbols, compiled, underWay, requested⟩
  have hcompiled : compiled.map (ModuleTy.strip cut) = compiled :=
    Dict.map_id fun m => m.strip_eq_self h
  show Session.mk _ _ _ _ = Session.mk _ _ _ _
  rw [symbols.strip_eq_self h, hcompiled]

namespace Session.Uncommented

variable {cut cut' : Cut} {σ σ' : Session} (h : σ.strip cut = σ'.strip cut')
include h

theorem symbols : σ.symbols.strip cut = σ'.symbols.strip cut' :=
  congrArg Session.symbols h

theorem lookup? (space name : String) :
    (σ.symbols.lookup? space name).map (Ty.strip cut) =
      (σ'.symbols.lookup? space name).map (Ty.strip cut') := by
  rw [← SymbolTable.lookup?_strip, ← SymbolTable.lookup?_strip, symbols h]

theorem imported? (file name : String) :
    (σ.symbols.imported? file name).map (Scope.strip cut) =
      (σ'.symbols.imported? file name).map (Scope.strip cut') := by
  rw [← SymbolTable.imported?_strip, ← SymbolTable.imported?_strip, symbols h]

theorem update {t t' : SymbolTable} (ht : t.strip cut = t'.strip cut') :
    Session.strip cut { σ with symbols := t } = Session.strip cut' { σ' with symbols := t' } := by
  show Session.mk _ (σ.strip cut).compiled (σ.strip cut).underWay (σ.strip cut).requested = _
  rw [h, ht]
  rfl

theorem bind (space name : String) {ty ty' : Ty} (hty : ty.strip cut = ty'.strip cut') :
    Session.strip cut { σ with symbols := σ.symbols.bind space name ty } =
      Session.strip cut' { σ' with symbols := σ'.symbols.bind space name ty' } := by
  apply update h
  rw [SymbolTable.strip_bind, SymbolTable.strip_bind, symbols h, hty]

theorem enter (space : String) :
    Session.strip cut { σ with symbols := σ.symbols.enter space } =
      Session.strip cut' { σ' with symbols := σ'.symbols.enter space } := by
  apply update h
  rw [SymbolTable.strip_enter, SymbolTable.strip_enter, symbols h]

theorem leave (space : String) :
    Session.strip cut { σ with symbols := σ.symbols.leave space } =
      Session.strip cut' { σ' with symbols := σ'.symbols.leave space } := by
  apply update h
  rw [SymbolTable.strip_leave, SymbolTable.strip_leave, symbols h]

theorem addStandard (file package localName : String) :
    Session.strip cut { σ with symbols := σ.symbols.addStandard file package localName } =
      Session.strip cut' { σ' with symbols := σ'.symbols.addStandard file package localName } := by
  apply update h
  rw [SymbolTable.strip_addStandard, SymbolTable.strip_addStandard, symbols h]

theorem addModule (file localName : String) {m m' : ModuleTy} (hm : m.strip cut = m'.strip cut') :
    Session.strip cut { σ with symbols := σ.symbols.addModule file localName m } =
      Session.strip cut' { σ' with symbols := σ'.symbols.addModule file localName m' } := by
  apply update h
  rw [SymbolTable.strip_addModule, SymbolTable.strip_addModule, symbols h, hm]

theorem compiled (package : String) :
    (σ.compiled.get? package).map (ModuleTy.strip cut) =
      (σ'.compiled.get? package).map (ModuleTy.strip cut') := by
  rw [← Dict.get?_map, ← Dict.get?_map]
  exact congrArg (·.compiled.get? package) h

theorem keep (package : String) {m m' : ModuleTy} (hm : m.strip cut = m'.strip cut') :
    Session.strip cut { σ with compiled := σ.compiled.insert package m } =
      Session.strip cut' { σ' with compiled := σ'.compiled.insert package m' } := by
  show Session.mk (σ.strip cut).symbols (Dict.map _ (σ.compiled.insert package m))
    (σ.strip cut).underWay (σ.strip cut).requested = Session.mk _ (Dict.map _ _) _ _
  rw [Dict.map_insert, Dict.map_insert, hm]
  show Session.mk (σ.strip cut).symbols ((σ.strip cut).compiled.insert package _)
    (σ.strip cut).underWay (σ.strip cut).requested = _
  rw [h]
  rfl

theorem underWay : σ.underWay = σ'.underWay := by
  show (σ.strip cut).underWay = (σ'.strip cut').underWay
  rw [h]

theorem beginPackage (package : String) :
    (σ.beginPackage package).strip cut = (σ'.beginPackage package).strip cut' :=
  congrArg (Session.beginPackage · package) h

theorem endPackage : σ.endPackage.strip cut = σ'.endPackage.strip cut' :=
  congrArg Session.endPackage h

theorem request (path : String) : (σ.request path).strip cut = (σ'.request path).strip cut' :=
  congrArg (Session.request · path) h

end Session.Uncommented

theorem Builtin.bindAll_strip (cut : Cut) (t : SymbolTable) (space : String) :
    (Builtin.bindAll t space).strip cut = Builtin.bindAll (t.strip cut) space := by
  have hall : ∀ fs : List NamedFunction, (∀ f ∈ fs, f.strip cut = f) → ∀ t : SymbolTable,
      (fs.foldl (fun t f => t.bind space f.name (.named f)) t).strip cut =
        fs.foldl (fun t f => t.bind space f.name (.named f)) (t.strip cut) := by
    intro fs hfs
    induction fs with
    | nil => exact fun t => rfl
    | cons f fs ih =>
        intro t
        have hf : Ty.strip cut (.named f) = .named f :=
          congrArg Ty.named (hfs f List.mem_cons_self)
        rw [List.foldl_cons, List.foldl_cons, ih fun g hg => hfs g (List.mem_cons_of_mem _ hg),
          SymbolTable.strip_bind, hf]
  exact hall functions functions_strip t

theorem Session.start_strip (cut : Cut) (settings : Settings) :
    (start settings).strip cut = start settings := by
  show Session.mk _ _ _ _ = Session.mk _ _ _ _
  rw [show (Session.start settings).symbols = Builtin.bindAll .empty settings.preludeSpace from rfl,
    Builtin.bindAll_strip]
  rfl

/-!
# Sources whose blocks close with a value
-/

/-- No comment follows the statement that gives a block its value. -/
def Source.Condition.closing : Source.Condition where
  expr
    | .block b => b.closes
    | .cond _ b _ => b.closes
    | .lambda _ _ b => b.closes
    | _ => true
  stmt
    | .function _ b => b.closes
    | .classDecl d => d.methods.all fun m => m.body.closes
    | _ => true

/-- Besides, annotations are such as can be written. -/
def Source.Condition.closingWritten : Source.Condition :=
  { Source.Condition.closing with ty := Ty.written .asWritten }

def Source.Condition.plain : Source.Condition where
  ty := Ty.written .asWritten
  stmt
    | .comment _ => false
    | _ => true

/-- There are no comments in the default values of parameters, and annotations are such as can be
written. -/
def Source.Condition.plainDefaults : Source.Condition where
  ty := Ty.written .asWritten
  params ps := ps.all fun p => p.default.all (Source.Expr.meets .plain)

mutual

theorem Ty.strip_of_written {D : Discipline} (cut : Cut) : ∀ t : Ty, t.written D → t.strip cut = t
  | .unknown _, _ | .noValue, _ | .int, _ | .float, _ | .string, _ | .bool, _ | .char, _
  | .nil, _ | .any, _ | .error, _ => rfl
  | .list elem, h => congrArg Ty.list (elem.strip_of_written cut h)
  | .map key value, h => by
      rcases Bool.and_eq_true_iff.mp h with ⟨hkey, hvalue⟩
      rw [Ty.strip, key.strip_of_written cut hkey, value.strip_of_written cut hvalue]
  | .tuple items, h => congrArg Ty.tuple (Ty.stripAll_of_written cut items h)
  | .function ⟨params, ret⟩, h => by
      rcases Bool.and_eq_true_iff.mp h with ⟨h, hret⟩
      rw [Ty.strip, Signature.strip, ret.strip_of_written cut hret,
        Param.stripAll_of_written cut params (Bool.and_eq_true_iff.mp h).2]
termination_by structural t => t

theorem Ty.stripAll_of_written {D : Discipline} (cut : Cut) : ∀ ts : List Ty,
    Ty.allWritten D ts → Ty.stripAll cut ts = ts
  | [], _ => rfl
  | t :: ts, h => by
      rcases Bool.and_eq_true_iff.mp h with ⟨ht, hts⟩
      rw [Ty.stripAll, t.strip_of_written cut ht, Ty.stripAll_of_written cut ts hts]
termination_by structural ts => ts

theorem Param.stripAll_of_written {D : Discipline} (cut : Cut) : ∀ ps : List Param,
    Param.allWritten D ps → Param.stripAll cut ps = ps
  | [], _ => rfl
  | ⟨_, ty, _, none⟩ :: ps, h => by
      rcases Bool.and_eq_true_iff.mp h with ⟨h, hps⟩
      rw [Param.stripAll, Param.strip, ty.strip_of_written cut (Bool.and_eq_true_iff.mp h).1,
        Param.stripAll_of_written cut ps hps]
      rfl
  | ⟨_, _, _, some _⟩ :: _, h => by
      rcases Bool.and_eq_true_iff.mp h with ⟨h, _⟩
      cases (Bool.and_eq_true_iff.mp h).2
termination_by structural ps => ps

end

/-!
# A run with comments and a run without
-/

structure Batch.SameCount (r r' : Batch) : Prop where
  kept : r.errors.length = r'.errors.length
  total : r.total = r'.total
  limit : r.limit = r'.limit

namespace Batch.SameCount

theorem push {r r' : Batch} (h : r.SameCount r') (d d' : Diagnostic) :
    (r.push d).SameCount (r'.push d') where
  kept := by
    unfold Batch.push
    dsimp only
    rw [h.kept, h.limit]
    split
    · rw [List.length_append, List.length_append, h.kept]
      rfl
    · exact h.kept
  total := congrArg (· + 1) h.total
  limit := h.limit

theorem pushAll {r r' : Batch} (h : r.SameCount r') {ds ds' : List Diagnostic}
    (hds : ds.length = ds'.length) :
    (ds.foldl Batch.push r).SameCount (ds'.foldl Batch.push r') := by
  induction ds generalizing r r' ds' with
  | nil =>
      cases List.eq_nil_of_length_eq_zero hds.symm
      exact h
  | cons d ds ih =>
      cases ds' with
      | nil => cases hds
      | cons d' ds' => exact ih (h.push d d') (Nat.succ.inj hds)

theorem extend {r r' e e' : Batch} (h : r.SameCount r') (he : e.SameCount e') :
    (r.extend e).SameCount (r'.extend e') := by
  have hpushed := h.pushAll he.kept
  constructor
  · exact hpushed.kept
  · show (e.errors.foldl Batch.push r).total + (e.total - e.errors.length) =
      (e'.errors.foldl Batch.push r').total + (e'.total - e'.errors.length)
    rw [hpushed.total, he.total, he.kept]
  · exact hpushed.limit

end Batch.SameCount

def Likeness.uncommented (cut : Cut) (source : Bool) : Likeness where
  cut := .everything
  cut' := cut
  source := source
  free := False
  strict := False
  rel σ σ' := σ.strip .everything = σ'.strip cut
  report := Batch.SameCount
  dropped _ := rfl
  plain := False.elim
  filled {e e'} h := by
    cases cut with
    | nothing => exact h
    | everything => exact h
    | bodies =>
        -- the default value of the second run is one without comments
        have hplain : e.strip .everything = e' := h.trans e'.strip_nothing
        rw [← hplain, e.strip_twice]
  reported h := congrArg (fun n => decide (0 < n)) h.total
  push h _ := h.push _ _
  extend h he := h.extend he

structure Source.Condition.Closing (c : Source.Condition) : Prop where
  blocks : ∀ {b}, Met (c.expr (.block b)) → b.closes
  conds : ∀ {e b o}, Met (c.expr (.cond e b o)) → b.closes
  lambdas : ∀ {ps ret b}, Met (c.expr (.lambda ps ret b)) → b.closes
  functions : ∀ {h b}, Met (c.stmt (.function h b)) → b.closes
  methods : ∀ {d}, Met (c.stmt (.classDecl d)) → ∀ m ∈ d.methods, m.body.closes

structure Source.Condition.Suits (cut : Cut) (source : Bool) (c : Source.Condition) : Prop where
  closing : source = true → c.Closing
  written : ∀ {ty}, Met (c.ty ty) → ty.strip .everything = ty.strip cut
  kept : Cut.everything.comments = cut.comments ∨ source = true ∨
    ∀ {text}, ¬ Met (c.stmt (.comment text))
  defaults : cut.defaults = cut ∨ (cut = .bodies ∧ source = false ∧
    ∀ {ps}, Met (c.params ps) → ∀ p ∈ ps, ∀ e, p.default = some e → Met (e.meets .plain))

namespace Source.Condition

theorem written_nothing {ty : Ty} (h : Met (ty.written .asWritten)) :
    ty.strip .everything = ty.strip .nothing := by
  rw [ty.strip_of_written .everything h, ty.strip_nothing]

theorem closing_suits : Suits .everything true .closing where
  closing _ := ⟨fun h => h, fun h => h, fun h => h, fun h => h, List.all_eq_true.mp⟩
  written _ := rfl
  kept := .inl rfl
  defaults := .inl rfl

theorem empty_suits : Suits .everything false {} where
  closing hsource := absurd hsource Bool.false_ne_true
  written _ := rfl
  kept := .inl rfl
  defaults := .inl rfl

theorem closingWritten_suits : Suits .nothing true .closingWritten where
  closing _ := ⟨fun h => h, fun h => h, fun h => h, fun h => h, List.all_eq_true.mp⟩
  written := written_nothing
  kept := .inr (.inl rfl)
  defaults := .inl rfl

theorem plain_suits : Suits .nothing false .plain where
  closing hsource := absurd hsource Bool.false_ne_true
  written := written_nothing
  kept := .inr (.inr Bool.false_ne_true)
  defaults := .inl rfl

theorem plainDefaults_suits : Suits .bodies false .plainDefaults where
  closing hsource := absurd hsource Bool.false_ne_true
  written {ty} h := by rw [ty.strip_of_written .everything h, ty.strip_of_written .bodies h]
  kept := .inl rfl
  defaults := by
    refine .inr ⟨rfl, rfl, ?_⟩
    intro ps hps p hp e he
    have hdefault := List.all_eq_true.mp hps p hp
    rw [he] at hdefault
    exact hdefault

end Source.Condition

namespace Uncommented

/-!
Of types, and so of sessions, only default values have comments to leave out.
-/

theorem eq_or_nothing {cut cut' : Cut} (h : cut.defaults = cut'.defaults) :
    cut = cut' ∨ (cut.defaults = .nothing ∧ cut'.defaults = .nothing) := by
  cases cut <;> cases cut' <;> first
    | exact .inl rfl
    | exact .inr ⟨rfl, rfl⟩
    | cases h

section Congr

variable {cut cut' : Cut} (h : cut.defaults = cut'.defaults)
include h

theorem ty_congr (t : Ty) : t.strip cut = t.strip cut' := by
  rcases eq_or_nothing h with rfl | ⟨hcut, hcut'⟩
  · rfl
  · rw [t.strip_eq_self hcut, t.strip_eq_self hcut']

theorem classTy_congr (c : ClassTy) : c.strip cut = c.strip cut' := by
  rcases eq_or_nothing h with rfl | ⟨hcut, hcut'⟩
  · rfl
  · rw [c.strip_eq_self hcut, c.strip_eq_self hcut']

theorem moduleTy_congr (m : ModuleTy) : m.strip cut = m.strip cut' := by
  rcases eq_or_nothing h with rfl | ⟨hcut, hcut'⟩
  · rfl
  · rw [m.strip_eq_self hcut, m.strip_eq_self hcut']

theorem session_congr (σ : Session) : σ.strip cut = σ.strip cut' := by
  rcases eq_or_nothing h with rfl | ⟨hcut, hcut'⟩
  · rfl
  · rw [σ.strip_eq_self hcut, σ.strip_eq_self hcut']

theorem rel_congr {source source' : Bool} {σ σ' : Session}
    (hσ : (Likeness.uncommented cut source).rel σ σ') :
    (Likeness.uncommented cut' source').rel σ σ' :=
  Eq.trans hσ (session_congr h σ')

theorem states_congr {source source' : Bool} {s s' : State}
    (hs : (Likeness.uncommented cut source).States s s') :
    (Likeness.uncommented cut' source').States s s' where
  session := rel_congr h hs.session
  classes := hs.classes.trans (List.map_congr_left fun c _ => classTy_congr h c)
  exprs := hs.exprs
  stmts := hs.stmts
  report := hs.report

theorem loads_congr {source source' : Bool} {r r' : Except LoadError ModuleTy × Session}
    (hr : (Likeness.uncommented cut source).Loads r r') :
    (Likeness.uncommented cut' source').Loads r r' := by
  cases hr with
  | ok hm hσ => exact .ok (hm.trans (moduleTy_congr h _)) (rel_congr h hσ)
  | cycle hσ => exact .cycle (rel_congr h hσ)
  | unavailable hσ => exact .unavailable (rel_congr h hσ)
  | failed hr hσ => exact .failed hr (rel_congr h hσ)
  | free hfree => exact hfree.elim

theorem outcomes_congr {α β : Type} {source : Bool} {env env' : Env} {R : α → β → Prop}
    {x : CheckM α} {y : CheckM β}
    (hxy : (Likeness.uncommented cut source).Outcomes env env' R x y) :
    (Likeness.uncommented cut' source).Outcomes env env' R x y := by
  intro s s' hs
  have hmatch := hxy s s' (states_congr h.symm hs)
  revert hmatch
  generalize x env s = r
  generalize y env' s' = r'
  intro hmatch
  cases hmatch with
  | ok hab ht => exact .ok hab ⟨states_congr h ht.toStates, ht.level, ht.level'⟩
  | error _ ht => exact .error False.elim ⟨states_congr h ht.toStates, ht.level, ht.level'⟩
  | free hfree => exact hfree.elim

end Congr

variable {cut : Cut} {source : Bool} {settings : Settings} {c : Source.Condition}

section File

variable {load load' : Loader}

def pairing (settings : Settings) (file space : String)
    (hload : ∀ {σ σ'} package, (Likeness.uncommented cut source).rel σ σ' →
      (Likeness.uncommented cut source).Loads (load package σ) (load' package σ'))
    (hc : c.Suits cut source)
    (hdefaults : cut.defaults = cut ∨ (Likeness.uncommented cut source).DefaultsAlike
      ⟨settings, file, space, load⟩ ⟨settings, file, space, load'⟩ c) : Pairing where
  toLikeness := .uncommented cut source
  env := ⟨settings, file, space, load⟩
  env' := ⟨settings, file, space, load'⟩
  condition := c
  imports _ := True
  one _ := trivial
  many _ _ _ := trivial
  written := hc.written
  blocks hb hsource := (hc.closing hsource).blocks hb
  conds hb hsource := (hc.closing hsource).conds hb
  lambdas hb hsource := (hc.closing hsource).lambdas hb
  functions hb hsource := (hc.closing hsource).functions hb
  methods hd hsource := (hc.closing hsource).methods hd
  kept := hc.kept
  defaults := hdefaults.imp_left fun hcut => ⟨rfl, hcut⟩
  file := False.elim
  lookup hσ name := Session.Uncommented.lookup? hσ space name
  prelude hσ name := Session.Uncommented.lookup? hσ settings.preludeSpace name
  imported hσ name := Session.Uncommented.imported? hσ file name
  bind name hσ hty := Session.Uncommented.bind hσ space name hty
  enter hσ := Session.Uncommented.enter hσ space
  leave hσ := Session.Uncommented.leave hσ space
  standard _ hσ := Session.Uncommented.addStandard hσ file _ _
  addModule localName hσ hm := Session.Uncommented.addModule hσ file localName hm
  load package _ hσ := hload package hσ

theorem defaultsAlike (file space : String)
    (hload : ∀ {σ σ'} package, (Likeness.uncommented .bodies false).rel σ σ' →
      (Likeness.uncommented .bodies false).Loads (load package σ) (load' package σ'))
    (hplain : ∀ {ps}, Met (c.params ps) →
      ∀ p ∈ ps, ∀ e, p.default = some e → Met (e.meets .plain)) :
    (Likeness.uncommented .bodies false).DefaultsAlike ⟨settings, file, space, load⟩
      ⟨settings, file, space, load'⟩ c := by
  intro ps hps p hp e he t t' ht
  -- nothing at all is left out of what the second run gives
  have hcut : Cut.bodies.defaults = Cut.nothing.defaults := rfl
  have hexact : ∀ {σ σ'} package, (Likeness.uncommented .nothing false).rel σ σ' →
      (Likeness.uncommented .nothing false).Loads (load package σ) (load' package σ') :=
    fun package hσ => loads_congr hcut (hload package (rel_congr hcut.symm hσ))
  let P := pairing settings file space hexact Source.Condition.plain_suits (.inl rfl)
  have hty : P.Alike Ty.strip t t' := ht.trans (ty_congr hcut t')
  have hexpr : P.Pairs (P.Alike Typed.Expr.strip) (Checker.expr e) (Checker.expr (e.strip false)) :=
    Pairing.expr e (hplain hps p hp e he)
  have hconfirm := (Pairing.operand e false hexpr).confirm hty
  exact outcomes_congr hcut.symm hconfirm

theorem runFile
    (hload : ∀ {σ σ'} package, (Likeness.uncommented cut source).rel σ σ' →
      (Likeness.uncommented cut source).Loads (load package σ) (load' package σ'))
    (hc : c.Suits cut source) {file : Source.File} (hfile : file.meets c) {σ σ' : Session}
    (hσ : (Likeness.uncommented cut source).rel σ σ') :
    (Likeness.uncommented cut source).Files (Checker.runFile settings load file σ)
      (Checker.runFile settings load' (file.strip source) σ') := by
  apply Likeness.runFile (L := .uncommented cut source) hσ ⟨rfl, rfl, rfl⟩
  intro name _
  have hspace : Checker.spaceOf σ name = Checker.spaceOf σ' name := by
    unfold Checker.spaceOf
    rw [Session.Uncommented.underWay hσ]
  have hdefaults : cut.defaults = cut ∨ (Likeness.uncommented cut source).DefaultsAlike
      ⟨settings, file.path, Checker.spaceOf σ name, load⟩
      ⟨settings, file.path, Checker.spaceOf σ name, load'⟩ c := by
    apply hc.defaults.imp_right
    intro hbodies
    rcases hbodies with ⟨rfl, rfl, hplain⟩
    exact defaultsAlike _ _ hload hplain
  refine ⟨pairing settings file.path (Checker.spaceOf σ name) hload hc hdefaults, rfl, rfl, ?_,
    hfile⟩
  rw [← hspace]
  rfl

end File

theorem load_unless {packages : Resolver} {depth : Nat} {package : String} {σ σ' : Session}
    (hσ : (Likeness.uncommented cut source).rel σ σ')
    (hcompile : ∀ {files}, Session.Uncompiled settings packages package σ files →
      Session.Uncompiled settings packages package σ' files →
      (Likeness.uncommented cut source).Loads (Session.load settings packages depth package σ)
        (Session.load settings packages depth package σ')) :
    (Likeness.uncommented cut source).Loads (Session.load settings packages depth package σ)
      (Session.load settings packages depth package σ') := by
  have hcompiled : (Likeness.uncommented cut source).AlikeOption ModuleTy.strip
      (σ.compiled.get? package) (σ'.compiled.get? package) :=
    Session.Uncommented.compiled hσ package
  have hunderWay := Session.Uncommented.underWay hσ
  -- both runs take the same branch: they have compiled the same packages and have the same ones
  -- under way
  cases hstandard : Library.standard? package with
  | some m =>
      rw [Session.load_of_standard depth hstandard, Session.load_of_standard depth hstandard]
      have hm : m.strip .everything = m.strip cut := by
        rw [Library.standard?_strip hstandard, Library.standard?_strip hstandard]
      exact .ok hm hσ
  | none =>
      rcases hcompiled.cases with ⟨hnew, hnew'⟩ | ⟨m, m', hknown, hknown', hm⟩
      · by_cases hway : package ∈ σ.underWay
        · have hway' : package ∈ σ'.underWay := hunderWay ▸ hway
          rw [Session.load_of_underWay depth hstandard hnew hway,
            Session.load_of_underWay depth hstandard hnew' hway']
          exact .cycle hσ
        · have hway' : package ∉ σ'.underWay := hunderWay ▸ hway
          cases hfiles : packages.filesAt (settings.pathOf package) with
          | error reason =>
              rw [Session.load_of_unavailable depth hstandard hnew hway hfiles,
                Session.load_of_unavailable depth hstandard hnew' hway' hfiles]
              exact .unavailable (Session.Uncommented.request hσ _)
          | ok files =>
              exact hcompile ⟨hstandard, hnew, hway, hfiles⟩ ⟨hstandard, hnew', hway', hfiles⟩
      · rw [Session.load_of_known depth hstandard hknown,
          Session.load_of_known depth hstandard hknown']
        exact .ok hm hσ

theorem load {packages : Resolver} (hc : c.Suits cut false) (hpackages : packages.Meets c)
    (depth : Nat) {σ σ' : Session} (package : String)
    (hσ : (Likeness.uncommented cut false).rel σ σ') :
    (Likeness.uncommented cut false).Loads (Session.load settings packages depth package σ)
      (Session.load settings packages depth package σ') := by
  induction depth generalizing σ σ' package with
  | zero =>
      apply load_unless hσ
      intro files h h'
      rw [h.load_zero settings.maxErrors, h'.load_zero settings.maxErrors]
      exact .cycle (Session.Uncommented.request hσ _)
  | succ depth ih =>
      apply load_unless hσ
      intro files h h'
      have hsame : files.map (Source.File.strip false) = files :=
        (List.map_congr_left fun file _ => file.strip_false).trans (List.map_id files)
      rw [h.load_succ settings.maxErrors, h'.load_succ settings.maxErrors]
      conv =>
        rhs
        rw [← hsame]
      apply Likeness.compile (L := .uncommented cut false)
      · exact fun file hfile _ _ hσ => runFile ih hc (hpackages _ files h.files file hfile) hσ
      · exact fun _ _ hσ => Session.Uncommented.endPackage hσ
      · exact fun _ _ _ _ hσ hm => Session.Uncommented.keep hσ package hm
      · exact ⟨rfl, rfl, rfl⟩
      · exact Session.Uncommented.beginPackage (Session.Uncommented.request hσ _) package

theorem of_files {r r' : Except Batch Typed.File × Session}
    (hr : (Likeness.uncommented cut source).Files r r') :
    r.1.isOk = r'.1.isOk ∧ ∀ typed, r.1 = .ok typed →
      ∃ typed', r'.1 = .ok typed' ∧ typed.strip .everything = typed'.strip cut := by
  cases hr with
  | ok hf _ =>
      constructor
      · rfl
      · intro typed htyped
        cases htyped
        exact ⟨_, rfl, hf⟩
  | error _ _ =>
      constructor
      · rfl
      · intro typed htyped
        cases htyped
  | free hfree => exact hfree.elim

end Uncommented

/-!
# Files
-/

namespace Session

variable (settings : Settings) {packages : Resolver} {file : Source.File}

theorem check_uncommented (hfile : file.meets .closing) (σ : Session) :
    (Likeness.uncommented .everything true).Files (check settings packages file σ)
      (check settings packages (file.strip true) σ) := by
  apply Uncommented.runFile _ Source.Condition.closing_suits hfile rfl
  intro σ σ' package hσ
  have hpackages := packages.meets_of_vacuous Source.Condition.Vacuous.empty
  have hload : (Likeness.uncommented .everything false).Loads
      (loader settings packages package σ) (loader settings packages package σ') :=
    Uncommented.load Source.Condition.empty_suits hpackages _ package hσ
  exact Uncommented.loads_congr rfl hload

theorem check_uncommented_exactly (hfile : file.meets .closingWritten)
    (hpackages : packages.Meets .plainDefaults) {σ : Session} (hσ : σ.strip .everything = σ) :
    (Likeness.uncommented .nothing true).Files (check settings packages file σ)
      (check settings packages (file.strip true) σ) := by
  have hsame : σ.strip .everything = σ.strip .nothing := by
    rw [hσ, σ.strip_eq_self rfl]
  apply Uncommented.runFile _ Source.Condition.closingWritten_suits hfile hsame
  intro σ σ' package hσ
  have hcut : Cut.bodies.defaults = Cut.nothing.defaults := rfl
  have hload : (Likeness.uncommented .bodies false).Loads
      (loader settings packages package σ) (loader settings packages package σ') :=
    Uncommented.load Source.Condition.plainDefaults_suits hpackages _ package
      (Uncommented.rel_congr hcut.symm hσ)
  exact Uncommented.loads_congr hcut hload

/--
Whether a file is checked with success does not depend on the comments in it, if no comment follows
the statement that gives a block its value; and the typed files are the same without comments.
Comments of a package can come in with a default value.  Where there are none in the default values
of the packages, and none in the types that are known before, the typed file is the one from before
without its comments.
-/
theorem check_strip (settings : Settings) (packages : Resolver) (file : Source.File)
    (hfile : file.meets .closing) (σ : Session) :
    (check settings packages (file.strip true) σ).1.isOk =
        (check settings packages file σ).1.isOk ∧
      ∀ typed, (check settings packages file σ).1 = .ok typed →
        (∃ typed', (check settings packages (file.strip true) σ).1 = .ok typed' ∧
          typed'.strip .everything = typed.strip .everything) ∧
        (file.meets .closingWritten → packages.Meets .plainDefaults → σ.strip .everything = σ →
          (check settings packages (file.strip true) σ).1 = .ok (typed.strip .everything)) := by
  rcases Uncommented.of_files (check_uncommented settings hfile σ) with ⟨hok, hsame⟩
  constructor
  · exact hok.symm
  · intro typed htyped
    constructor
    · rcases hsame typed htyped with ⟨typed', htyped', hstrip⟩
      exact ⟨typed', htyped', hstrip.symm⟩
    · intro hwritten hpackages hσ
      have hexact := Uncommented.of_files (check_uncommented_exactly settings hwritten hpackages hσ)
      rcases hexact.2 typed htyped with ⟨typed', htyped', hstrip⟩
      rw [htyped', hstrip, typed'.strip_nothing]

end Session

namespace Sample

def comment (text : String) : Source.Stmt :=
  stmt (.comment text)

def noted : Source.File :=
  file "noted" [comment "// totals", stmt (.importOne (ident "sums") none),
    stmt (.function ⟨ident "total", .isPublic, [], some .int⟩ (block
      [comment "// nothing is given",
        stmt (.whileLoop (expr (.bool false)) [comment "// never", stmt .breakLoop]),
        stmt (.binding ⟨ident "none", false, none, some (expr (.block (block
          [comment "// by default", stmt (.yield (expr (.call (get (var "sums") "sum") []
            default)))])))⟩),
        stmt (.ret (some (var "none")))])),
    stmt (.classDecl ⟨ident "Note", .isPrivate, [],
      [⟨countHead, block [comment "// one", stmt (.ret (some (expr (.int 1))))], default⟩], []⟩),
    comment "// the end"]

/-- A function that returns a number, with a comment behind it. -/
def commented : Source.File :=
  file "main" [stmt (.function ⟨ident "one", .isPrivate, [], some .int⟩
    (block [stmt (.ret (some (expr (.int 1)))), comment "// one"]))]

end Sample

theorem Session.check_strip_noted :
    ∃ typed, Sample.noted.meets .closing = true ∧
      (check {} Sample.sums Sample.noted (start {})).1 = .ok typed ∧
      (check {} Sample.sums (Sample.noted.strip true) (start {})).1 =
        .ok (typed.strip .everything) :=
  ⟨_, rfl, rfl, ((check_strip {} Sample.sums Sample.noted rfl (start {})).2 _ rfl).2 rfl
    (PackageIndex.meets_resolver rfl) (start_strip .everything {})⟩

/-- A comment takes its value from a block that it closes. -/
theorem Session.comments_matter :
    (check {} .empty Sample.commented (start {})).1.isOk = false ∧
      (check {} .empty (Sample.commented.strip true) (start {})).1.isOk = true :=
  ⟨rfl, rfl⟩

end StaticTyping
