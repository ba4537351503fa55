import StaticTyping.Proofs.DeclarationOrder
import StaticTyping.Proofs.Retry.Finish
import StaticTyping.Proofs.Retry.Imports

/-!
# Files checked again

A file of declarations whose imports compile nothing comes to the same when it is checked again,
on top of what the first check has left, and leaves the tables as they are.
-/

namespace StaticTyping

open CheckM

def Session.leaving (space file : String) (ms : List (String × ModuleTy))
    (bs : List (String × Ty)) (ps : List (String × String)) (σ : Session) : Session :=
  { σ with symbols := ((σ.symbols.addModules file ms).bindAll space bs).addStandards file ps }

def Session.requesting (rs : List String) (σ : Session) : Session :=
  { σ with requested := rs ++ σ.requested }

def State.revisited (env : Env) (ms : List (String × ModuleTy)) (bs : List (String × Ty))
    (ps : List (String × String)) (s : State) : State :=
  { s with session := s.session.leaving env.space env.file ms bs ps }

theorem State.importing_revisited (env : Env) (ms : List (String × ModuleTy))
    (bs : List (String × Ty)) (ps : List (String × String)) (rs : List String)
    (ds : List Diagnostic) (s : State) :
    (s.revisited env ms bs ps).importing env ms rs ds =
      onSymbols (·.addStandards env.file ps)
        (onSymbols (·.bindAll env.space bs) (s.importing env ms rs ds)) := by
  have hagain : (((s.session.symbols.addModules env.file ms).bindAll env.space bs).addStandards
      env.file ps).addModules env.file ms =
      ((s.session.symbols.addModules env.file ms).bindAll env.space bs).addStandards env.file
        ps := by
    refine SymbolTable.addModules_eq_self (t := s.session.symbols) fun localName himported => ?_
    have hbound : ((s.session.symbols.addModules env.file ms).bindAll env.space bs).imported?
        env.file localName = (s.session.symbols.addModules env.file ms).imported? env.file
        localName := by
      unfold SymbolTable.imported? SymbolTable.importsOf
      rw [SymbolTable.imports_bindAll]
    rw [SymbolTable.imported?_addStandards_eq (hbound ▸ himported), hbound]
  unfold State.importing State.revisited Session.leaving onSymbols
  dsimp only
  rw [hagain]

theorem SymbolTable.imported?_congr {t v : SymbolTable} (h : t.imports = v.imports)
    (file localName : String) : t.imported? file localName = v.imported? file localName := by
  unfold SymbolTable.imported? SymbolTable.importsOf
  rw [h]

theorem SymbolTable.WellFormed.of_tables {D : Discipline} {t u v : SymbolTable}
    (hu : u.WellFormed D) (hv : v.WellFormed D) (hspaces : t.spaces = u.spaces)
    (himports : t.imports = v.imports) : t.WellFormed D where
  spaces h := hu.spaces (hspaces ▸ h)
  imports {file localName scope} h := by
    rw [SymbolTable.imported?_congr himports] at h
    exact hv.imports h
  reserved p hp hreserved scope h := by
    rw [SymbolTable.imported?_congr himports] at h
    exact hv.reserved p hp hreserved scope h

theorem CheckM.onSymbols_eq_self {f : SymbolTable → SymbolTable} {s : State}
    (h : f s.session.symbols = s.session.symbols) : onSymbols f s = s := by
  unfold onSymbols
  rw [h]

namespace Checker

variable {env : Env} {ss : List Source.Stmt}

/-!
# Standard packages that are visible before
-/

section

variable {D : Discipline} (hload : env.load.Sound D)
  (hkeeps : ∀ package (σ : Session), σ.symbols.KeepsImports (env.load package σ).2.symbols)
  (hclosed : ∀ s ∈ ss, s.declKind = .imports ∨
    Source.Met (s.meets (D.closed (Source.hiddenImports ss))))
  {ps : List (String × String)} (hps : ∀ p ∈ ps, p ∈ Library.onDemand) {s : State}
  (hs : s.WellFormed D) (hvisible : s.Visible env (Source.hiddenImports ss))

include hload in
theorem premises_adding {hidden : List String} {p : String × String} (hp : p ∈ Library.onDemand)
    (hhidden : p.2 ∈ hidden) : Premises D (env.adding hp) (D.closed hidden) :=
  .closed hload fun {name} hname (hsame : name = p.2) => hname (hsame ▸ hhidden)

include hload hkeeps hclosed hps hs hvisible

theorem declareSlots_addStandards {slots : List Slot} (hslots : slots.map Slot.stmt = ss) :
    declareSlots ss slots env (onSymbols (·.addStandards env.file ps) s) =
      ((declareSlots ss slots env s).1,
        onSymbols (·.addStandards env.file ps) (declareSlots ss slots env s).2) := by
  let F := Frame.importing env hkeeps
  have hattempts : F.closure.Attempts := F.closure.attempts trivial
  have admits : ∀ met, F.closure.Admits met := fun _ => .inl trivial
  have hinterfaces : ∀ slots, F.Keeps (runPhase interfacePhase slots) := fun _ =>
    F.closure.runPhase hattempts fun _ _ _ => F.closure.interfacePhase (admits _)
  have hclasses : ∀ slots, F.Keeps (runPhase classPhase slots) := fun _ =>
    F.closure.runPhase hattempts fun _ _ _ => F.closure.classPhase (admits _)
  have hfunctions : ∀ slots, F.Keeps (runPhase functionPhase slots) := fun _ =>
    F.closure.runPhase hattempts fun _ _ _ => F.closure.functionPhase (admits _)
  have hvalues : ∀ slots, F.Keeps (runPhase bindingPhase slots) := fun _ =>
    F.closure.runPhase hattempts fun _ _ _ => F.closure.bindingPhase (admits _)
  have hkept : F.Keeps (declareSlots ss slots) :=
    (F.closure.declareAll _).bind fun _ => (hinterfaces _).bind fun _ => (hclasses _).bind fun _ =>
      (hfunctions _).bind fun _ => (hvalues _).bind fun _ => .pure _
  exact unaffected_addStandards (fun hp hhidden s hs =>
    ((premises_adding hload hp hhidden).declareSlots hclosed hslots s hs).2)
    (fun s localName => hkept s env.file localName) hps hs hvisible

theorem finish_addStandards {items : List Item} {g g' : Stage}
    (hrows : Chain (Row D) ss g items g') :
    finish items env (onSymbols (·.addStandards env.file ps) s) =
      ((finish items env s).1, onSymbols (·.addStandards env.file ps) (finish items env s).2) := by
  have hkept := (Frame.importing env hkeeps).closure.finish trivial items
  exact unaffected_addStandards (fun hp hhidden s hs =>
    ((premises_adding hload hp hhidden).finish_steady hclosed hrows s hs).2)
    (fun s localName => hkept s env.file localName) hps hs hvisible

end

/-!
# The first pass
-/

structure FirstPass (env : Env) (ss : List Source.Stmt) (s : State) (slots : List Slot)
    (ms : List (String × ModuleTy)) (rs : List String) (ds : List Diagnostic) (items : List Item)
    (bs : List (String × Ty)) (ds' : List Diagnostic) : Prop where
  imports : ∀ u : State, u.session.compiled = s.session.compiled →
    u.session.underWay = s.session.underWay →
    runPhase importPhase (ss.map fun s => ⟨s, none⟩) env u = (.ok slots, u.importing env ms rs ds)
  stmts : slots.map Slot.stmt = ss
  declared : ∀ b ∈ bs, b.1 ∈ ss.flatMap Source.Stmt.declares
  rebound : ∀ item ∈ items, ∀ name ∈ item.rebound?, name ∈ bs.map Prod.fst
  declares : ∀ cs : List (String × Ty), (∀ c ∈ cs, c.1 ∈ ss.flatMap Source.Stmt.declares) →
    declareSlots ss slots env (onSymbols (·.bindAll env.space cs) (s.importing env ms rs ds)) =
      (.ok items,
        (onSymbols (·.bindAll env.space cs) (s.importing env ms rs ds)).leaving env bs ds')

namespace FirstPass

theorem exists_of_idle (htidy : ∀ s ∈ ss, s.tidy (Source.lateNames ss)) (s : State)
    (hidle : ∀ stmt ∈ ss, ∀ i ∈ stmt.imports, env.load.Idle s.session i.package.name) :
    ∃ slots ms rs ds items bs ds', FirstPass env ss s slots ms rs ds items bs ds' := by
  have hslots : ∀ slot ∈ ss.map (fun s => (⟨s, none⟩ : Slot)), ∀ i ∈ slot.stmt.imports,
      env.load.Idle s.session i.package.name := by
    intro slot hslot
    rcases List.mem_map.mp hslot with ⟨stmt, hstmt, rfl⟩
    exact hidle stmt hstmt
  obtain ⟨_, ms, rs, ds, ⟨slots, rfl, hfills⟩, himports⟩ := runPhase_importing hslots
  have hstmts : slots.map Slot.stmt = ss := by
    rw [hfills.stmts, List.map_map]
    exact List.map_id ss
  have hnew : slots.flatMap Slot.rebinds = [] := by
    refine List.eq_nil_iff_forall_not_mem.mpr fun name hname => ?_
    rcases hfills.rebound name hname with hold | hbound
    · rcases List.mem_flatMap.mp hold with ⟨slot, hslot, hrebinds⟩
      rcases List.mem_map.mp hslot with ⟨stmt, _, rfl⟩
      exact absurd hrebinds List.not_mem_nil
    · exact absurd hbound List.not_mem_nil
  obtain ⟨items, bs, ds', hdeclared, hrebound, hdeclares⟩ :=
    declareSlots_again env htidy hstmts hnew (s.importing env ms rs ds)
  exact ⟨slots, ms, rs, ds, items, bs, ds', himports, hstmts, hdeclared, hrebound, hdeclares⟩

variable {s : State} {slots : List Slot} {ms : List (String × ModuleTy)} {rs : List String}
  {ds ds' : List Diagnostic} {items : List Item} {bs : List (String × Ty)}
  (h : FirstPass env ss s slots ms rs ds items bs ds')
include h

theorem outline :
    Checker.outline ss env s = (.ok items, (s.importing env ms rs ds).leaving env bs ds') := by
  rw [outline_eq, bind_apply_of_ok (h.imports s rfl rfl)]
  exact h.declares [] fun _ hc => absurd hc List.not_mem_nil

theorem outline_revisited (cs : List (String × Ty)) (ps : List (String × String)) :
    Checker.outline ss env (s.revisited env ms cs ps) =
      declareSlots ss slots env (onSymbols (·.addStandards env.file ps)
        (onSymbols (·.bindAll env.space cs) (s.importing env ms rs ds))) := by
  rw [outline_eq, bind_apply_of_ok (h.imports (s.revisited env ms cs ps) rfl rfl),
    State.importing_revisited]

theorem declares_again {cs : List (String × Ty)} (hcs : ∀ c ∈ cs, c.1 ∈ bs.map Prod.fst) :
    declareSlots ss slots env (onSymbols (·.bindAll env.space cs) (s.importing env ms rs ds)) =
      (.ok items, (s.importing env ms rs ds).leaving env bs ds') := by
  have hdeclared : ∀ c ∈ cs, c.1 ∈ ss.flatMap Source.Stmt.declares := by
    intro c hc
    rcases List.mem_map.mp (hcs c hc) with ⟨b, hb, hsame⟩
    exact hsame ▸ h.declared b hb
  rw [h.declares cs hdeclared]
  unfold State.leaving onSymbols
  dsimp only
  rw [SymbolTable.bindAll_bindAll _ _ hcs]

theorem outline_again : Checker.outline ss env (s.revisited env ms bs []) =
    (.ok items, (s.importing env ms rs ds).leaving env bs ds') := by
  rw [h.outline_revisited]
  exact h.declares_again fun b hb => List.mem_map_of_mem hb

theorem finish_again {D : Discipline} (hload : env.load.Sound D)
    (hkeeps : ∀ package (σ : Session), σ.symbols.KeepsImports (env.load package σ).2.symbols)
    (hmeets : ∀ s ∈ ss, Source.Met (s.meets D.condition))
    (htidy : ∀ s ∈ ss, s.tidy (Source.lateNames ss))
    (hclosed : ∀ s ∈ ss, s.declKind = .imports ∨
      Source.Met (s.meets (D.closed (Source.hiddenImports ss))))
    (hs : s.WellFormed D)
    (hquiet : ((s.importing env ms rs ds).leaving env bs ds').report.reported = false) :
    ∃ cs ps,
      (finish items env ((s.importing env ms rs ds).leaving env bs ds')).2.session =
        (s.session.leaving env.space env.file ms (bs ++ cs) ps).requesting rs ∧
      Checker.outline ss env (s.revisited env ms (bs ++ cs) ps) =
        (.ok items, onSymbols (·.addStandards env.file ps)
          ((s.importing env ms rs ds).leaving env bs ds')) ∧
      finish items env (onSymbols (·.addStandards env.file ps)
          ((s.importing env ms rs ds).leaving env bs ds')) =
        finish items env ((s.importing env ms rs ds).leaving env bs ds') := by
  have houtline := h.outline
  have hsucceeds : (Checker.outline ss).Succeeds env s items _ := ⟨houtline, hquiet⟩
  obtain ⟨hwell, houtlined⟩ := ((Premises.of_load hload).outline hmeets).of_succeeds hs hsucceeds
  rcases houtlined.rows with ⟨_, _, _, _, hrows⟩
  have hvisible : State.Visible env (Source.hiddenImports ss)
      ((s.importing env ms rs ds).leaving env bs ds') := by
    intro p hp hhidden
    rcases Source.imported_of_not_hidden hp hhidden with ⟨stmt, hstmt, i, hi, hsame⟩
    exact hsame ▸ outline_imported hkeeps hsucceeds stmt hstmt i hi
  obtain ⟨cs, ps, hcs, hps, hsession⟩ := finish_trails hload.releases htidy hclosed hrows h.rebound
    ((s.importing env ms rs ds).leaving env bs ds')
  have hsymbols : (finish items env
      ((s.importing env ms rs ds).leaving env bs ds')).2.session.symbols =
      ((s.session.symbols.addModules env.file ms).bindAll env.space (bs ++ cs)).addStandards
        env.file ps := by
    rw [SymbolTable.bindAll_append]
    exact congrArg Session.symbols hsession
  -- the state with all names bound, and without the standard packages
  have hfinished := ((Premises.of_load hload).finish hmeets hrows _ hwell).wellFormed
  rw [Env.toEnv_unshifted] at hfinished
  have himports :
      ((s.importing env ms rs ds).session.symbols.bindAll env.space (bs ++ cs)).imports =
      ((s.importing env ms rs ds).session.symbols.bindAll env.space bs).imports :=
    (SymbolTable.imports_bindAll _ _ _).trans (SymbolTable.imports_bindAll _ _ _).symm
  have hbound : (onSymbols (·.bindAll env.space (bs ++ cs)) (s.importing env ms rs ds)).WellFormed
      D := by
    refine ⟨⟨.of_tables hfinished.session.symbols hwell.session.symbols ?_ himports,
      hwell.session.compiled⟩, hwell.classes⟩
    rw [hsymbols, SymbolTable.spaces_addStandards]
    rfl
  have hnames : ∀ c ∈ bs ++ cs, c.1 ∈ bs.map Prod.fst :=
    List.forall_mem_append.mpr ⟨fun b hb => List.mem_map_of_mem hb, hcs⟩
  refine ⟨cs, ps, ?_, ?_, ?_⟩
  · unfold Session.leaving
    rw [SymbolTable.bindAll_append]
    exact hsession
  · rw [h.outline_revisited, declareSlots_addStandards hload hkeeps hclosed hps hbound ?_ h.stmts,
      h.declares_again hnames]
    exact fun p hp hhidden =>
      SymbolTable.KeepsImports.of_eq himports env.file p.2 (hvisible p hp hhidden)
  · rw [finish_addStandards hload hkeeps hclosed hps hwell hvisible hrows, onSymbols_eq_self]
    rw [hsymbols, SymbolTable.addStandards_addStandards_self _ _ hps]

end FirstPass

/-!
# Files
-/

/-- What is asked of a file that is to be checked again: annotations as a discipline has them; only
imports, comments and declarations that go the same way on top of their own bindings; and bodies
that import nothing and name a standard package only if the file imports something under that
name. -/
structure Repeatable (D : Discipline) (ss : List Source.Stmt) : Prop where
  meets : ∀ s ∈ ss, Source.Met (s.meets D.condition)
  tidy : ∀ s ∈ ss, s.tidy (Source.lateNames ss)
  closed : ∀ s ∈ ss, s.declKind = .imports ∨
    Source.Met (s.meets (D.closed (Source.hiddenImports ss)))

instance (D : Discipline) (ss : List Source.Stmt) : Decidable (Repeatable D ss) :=
  decidable_of_iff ((∀ s ∈ ss, Source.Met (s.meets D.condition)) ∧
      (∀ s ∈ ss, s.tidy (Source.lateNames ss)) ∧
      ∀ s ∈ ss, s.declKind = .imports ∨
        Source.Met (s.meets (D.closed (Source.hiddenImports ss))))
    ⟨fun ⟨hmeets, htidy, hclosed⟩ => ⟨hmeets, htidy, hclosed⟩,
      fun h => ⟨h.meets, h.tidy, h.closed⟩⟩

section

variable {settings : Settings} {load : Loader} {file : Source.File} {σ σ' : Session}
  {name : String} {items : List Item} {t : State}

theorem pass_congr {α : Type} {x : CheckM α} {env : Env} {s s' : State}
    (h : x env s = x env s') : pass x env s = pass x env s' := by
  unfold pass CheckM.attempt
  rw [h]

theorem runFile_of_reported (hname : moduleName? file.stmts = some name)
    (houtline : outline file.stmts ⟨settings, file.path, spaceOf σ name, load⟩
      (initial settings σ) = (.ok items, t)) (hreported : t.report.reported) :
    runFile settings load file σ = (.error t.report, t.session) := by
  have hpass : pass (outline file.stmts) ⟨settings, file.path, spaceOf σ name, load⟩
      (initial settings σ) = takeReport ⟨settings, file.path, spaceOf σ name, load⟩ t := by
    unfold pass
    rw [attempt_apply_of_ok houtline]
    exact if_pos hreported
  unfold runFile envOf
  rw [hname]
  dsimp only [Option.map_some]
  rw [hpass]
  rfl

theorem runFile_of_quiet (hname : moduleName? file.stmts = some name)
    (houtline : (outline file.stmts).Succeeds ⟨settings, file.path, spaceOf σ name, load⟩
      (initial settings σ) items t) :
    runFile settings load file σ = conclude file.path name
      (pass (finish items) ⟨settings, file.path, spaceOf σ name, load⟩ t) := by
  unfold runFile envOf
  rw [hname]
  dsimp only [Option.map_some]
  rw [pass_iff.mpr houtline]
  rfl

theorem runFile_again {D : Discipline} (hload : load.Sound D)
    (hkeeps : ∀ package (σ : Session), σ.symbols.KeepsImports (load package σ).2.symbols)
    (hfile : Repeatable D file.stmts) (hσ : σ.WellFormed D)
    (hidle : ∀ stmt ∈ file.stmts, ∀ i ∈ stmt.imports, load.Idle σ i.package.name)
    (hname : moduleName? file.stmts = some name) :
    ∃ ms bs ps rs, (runFile settings load file σ).2 =
        (σ.leaving (spaceOf σ name) file.path ms bs ps).requesting rs ∧
      runFile settings load file (σ.leaving (spaceOf σ name) file.path ms bs ps) =
        runFile settings load file σ := by
  obtain ⟨slots, ms, rs, ds, items, bs, ds', h⟩ :
      ∃ slots ms rs ds items bs ds', FirstPass ⟨settings, file.path, spaceOf σ name, load⟩
        file.stmts (initial settings σ) slots ms rs ds items bs ds' :=
    FirstPass.exists_of_idle hfile.tidy _ hidle
  -- a first pass that reports ends the check; otherwise the second one adds to what is left
  cases hreported : (State.leaving ⟨settings, file.path, spaceOf σ name, load⟩ bs ds'
    (State.importing ⟨settings, file.path, spaceOf σ name, load⟩ ms rs ds
      (initial settings σ))).report.reported with
  | true =>
      have hfirst := runFile_of_reported hname h.outline hreported
      have hsecond := runFile_of_reported
        (σ := σ.leaving (spaceOf σ name) file.path ms bs []) hname h.outline_again hreported
      exact ⟨ms, bs, [], rs, congrArg Prod.snd hfirst, hsecond.trans hfirst.symm⟩
  | false =>
      obtain ⟨cs, ps, hsession, houtline, hfinish⟩ := h.finish_again hload hkeeps hfile.meets
        hfile.tidy hfile.closed (hσ.initial settings) hreported
      have hfirst := runFile_of_quiet hname ⟨h.outline, hreported⟩
      have hsecond := runFile_of_quiet
        (σ := σ.leaving (spaceOf σ name) file.path ms (bs ++ cs) ps) hname ⟨houtline, hreported⟩
      refine ⟨ms, bs ++ cs, ps, rs, ?_, ?_⟩
      · rw [hfirst, conclude_session, pass_session, attempt_session]
        exact hsession
      · exact hsecond.trans ((congrArg (conclude file.path name) (pass_congr hfinish)).trans
          hfirst.symm)

end

end Checker
end StaticTyping
