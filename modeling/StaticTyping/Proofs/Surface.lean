import StaticTyping.Proofs.Beginnings
import StaticTyping.Proofs.Elaborated

/-!
# What importers see

An importer sees the public functions and classes of a package and all its variables, as far as they
are declared at the top of a file, and nothing else.  A name that is declared more than once stands
for the last declaration, where functions come before classes and these before variables, each in
the order of the files and of the statements in them.
-/

namespace StaticTyping

open CheckM

/-!
# Declarations that are exported
-/

/-- The kinds of declarations that a package can export. -/
inductive ExportKind where
  | function
  | classDecl
  | binding

namespace ExportKind

def all : List ExportKind :=
  [.function, .classDecl, .binding]

theorem mem_all (kind : ExportKind) : kind ∈ all := by
  cases kind <;> simp [all]

end ExportKind

/-- The name that a statement exports by a declaration of a kind. -/
def Source.Stmt.exported? : ExportKind → Source.Stmt → Option String
  | .function, ⟨.function head _, _⟩ =>
      if head.visibility = .isPublic then some head.name.name else none
  | .classDecl, ⟨.classDecl d, _⟩ =>
      if d.visibility = .isPublic then some d.name.name else none
  | .binding, ⟨.binding d, _⟩ => some d.name.name
  | _, _ => none

def Typed.Stmt.declaredTy? : Typed.Stmt → Option Ty
  | ⟨.function f, _⟩ => some (.named f.sig)
  | ⟨.classDecl _ sig _, _⟩ => some (.classTy sig)
  | ⟨.binding _ _ _ ty _, _⟩ => some ty
  | _ => none

/-- The types of the exported declarations of a name, in order. -/
def surface (files : List Source.File) (typed : List Typed.File) (name : String) : List Ty :=
  ExportKind.all.flatMap fun kind => (files.zip typed).flatMap fun (file, f) =>
    (file.stmts.zip f.stmts).filterMap fun (s, t) =>
      if s.exported? kind = some name then t.declaredTy? else none

def Typed.Stmt.export? : ExportKind → Typed.Stmt → Option (String × Ty)
  | .function, t => t.exportedFunction?.map fun f => (f.name, .named f)
  | .classDecl, t => t.exportedClass?.map fun c => (c.name, .classTy c)
  | .binding, t => t.exportedVariable?.map fun v => (v.name, v.ty)

theorem Typed.Stmt.declaredTy?_of_export? {t : Typed.Stmt} {kind : ExportKind} {name : String}
    {ty : Ty} (h : t.export? kind = some (name, ty)) : t.declaredTy? = some ty := by
  cases kind with
  | function =>
      rcases Option.map_eq_some_iff.mp h with ⟨f, hf, hpair⟩
      unfold exportedFunction? at hf
      split at hf
      · split at hf
        · cases hf
          cases hpair
          rfl
        · cases hf
      · cases hf
  | classDecl =>
      rcases Option.map_eq_some_iff.mp h with ⟨c, hc, hpair⟩
      unfold exportedClass? at hc
      split at hc
      · split at hc
        · cases hc
          cases hpair
          rfl
        · cases hc
      · cases hc
  | binding =>
      rcases Option.map_eq_some_iff.mp h with ⟨v, hv, hpair⟩
      unfold exportedVariable? at hv
      split at hv
      · cases hv
        cases hpair
        rfl
      · cases hv

theorem ModuleTy.Gathers.members {m : ModuleTy} {typed : List Typed.File} (h : m.Gathers typed) :
    m.members = ExportKind.all.flatMap fun kind => typed.flatMap fun f =>
      f.stmts.filterMap (Typed.Stmt.export? kind) := by
  unfold ModuleTy.members
  rw [h.functions, h.classes, h.values]
  simp only [List.map_flatMap, List.map_filterMap, ExportKind.all, List.flatMap_cons,
    List.flatMap_nil, List.append_nil, List.append_assoc]
  rfl

section Elaborates

variable {vars : String → Bool}

namespace Source.Stmt.Elaborates

variable {s : Source.Stmt} {t : Typed.Stmt} (h : s.Elaborates vars t)
include h

theorem name_export? (kind : ExportKind) : (t.export? kind).map Prod.fst = s.exported? kind := by
  cases h with
  | intro h =>
      cases h
      case function hhead _ =>
        cases hhead with
        | @intro _ visibility => cases visibility <;> cases kind <;> rfl
      case classDecl visibility _ _ _ _ _ _ _ _ _ => cases visibility <;> cases kind <;> rfl
      all_goals cases kind <;> rfl

theorem valueFor_export? (kind : ExportKind) (name : String) :
    (t.export? kind).bind (valueFor name) =
      if s.exported? kind = some name then t.declaredTy? else none := by
  rw [← h.name_export? kind]
  cases hexport : t.export? kind with
  | none => rfl
  | some pair =>
      rw [Typed.Stmt.declaredTy?_of_export? hexport]
      simp only [Option.bind_some, Option.map_some, Option.some.injEq]
      rfl

end Source.Stmt.Elaborates

theorem name_exports {files : List Source.File} {typed : List Typed.File}
    (h : List.Forall₂ (Source.File.Elaborates vars) files typed) (kind : ExportKind) :
    (typed.flatMap fun f => f.stmts.filterMap (Typed.Stmt.export? kind)).map Prod.fst =
      files.flatMap fun file => file.stmts.filterMap (Source.Stmt.exported? kind) := by
  have hstmts : ∀ {ss : List Source.Stmt} {ts : List Typed.Stmt},
      List.Forall₂ (Source.Stmt.Elaborates vars) ss ts →
      (ts.filterMap (Typed.Stmt.export? kind)).map Prod.fst =
        ss.filterMap (Source.Stmt.exported? kind) := by
    intro ss ts hss
    rw [List.map_filterMap]
    induction hss with
    | nil => rfl
    | cons hs _ ih => rw [List.filterMap_cons, List.filterMap_cons, hs.name_export?, ih]
  rw [List.map_flatMap]
  induction h with
  | nil => rfl
  | cons hfile _ ih => rw [List.flatMap_cons, List.flatMap_cons, ih, hstmts hfile.stmts]

theorem surface_eq {files : List Source.File} {typed : List Typed.File}
    (h : List.Forall₂ (Source.File.Elaborates vars) files typed) (name : String) :
    surface files typed name = (ExportKind.all.flatMap fun kind => typed.flatMap fun f =>
      f.stmts.filterMap (Typed.Stmt.export? kind)).filterMap (valueFor name) := by
  have hstmts : ∀ (kind : ExportKind) {ss : List Source.Stmt} {ts : List Typed.Stmt},
      List.Forall₂ (Source.Stmt.Elaborates vars) ss ts →
      ((ss.zip ts).filterMap fun (s, t) =>
        if s.exported? kind = some name then t.declaredTy? else none) =
      ts.filterMap fun t => (t.export? kind).bind (valueFor name) := by
    intro kind ss ts hss
    induction hss with
    | nil => rfl
    | cons hs _ ih =>
        rw [List.zip_cons_cons, List.filterMap_cons, List.filterMap_cons, hs.valueFor_export?, ih]
  unfold surface
  rw [List.filterMap_flatMap]
  congr 1
  funext kind
  rw [List.filterMap_flatMap]
  induction h with
  | nil => rfl
  | cons hfile _ ih =>
      rw [List.zip_cons_cons, List.flatMap_cons, List.flatMap_cons, ih, List.filterMap_filterMap]
      exact congrArg (· ++ _) (hstmts kind hfile.stmts)

theorem Scope.get?_ofModule {files : List Source.File} {typed : List Typed.File}
    (h : List.Forall₂ (Source.File.Elaborates vars) files typed) {m : ModuleTy}
    (hm : m.Gathers typed) (name : String) :
    (Scope.ofModule m).get? name = (surface files typed name).getLast? := by
  unfold ofModule
  rw [Dict.get?_insertAll, hm.members, surface_eq h, Dict.get?_empty, Option.or_none]

theorem Scope.isSome_get?_ofModule {files : List Source.File} {typed : List Typed.File}
    (h : List.Forall₂ (Source.File.Elaborates vars) files typed) {m : ModuleTy}
    (hm : m.Gathers typed) (name : String) :
    ((Scope.ofModule m).get? name).isSome ↔
      ∃ file ∈ files, ∃ s ∈ file.stmts, ∃ kind, s.exported? kind = some name := by
  unfold ofModule
  rw [Dict.isSome_get?_insertAll, hm.members, List.map_flatMap]
  simp only [name_exports h, List.mem_flatMap, List.mem_filterMap]
  constructor
  · rintro ⟨kind, _, file, hfile, s, hs, hname⟩
    exact ⟨file, hfile, s, hs, kind, hname⟩
  · rintro ⟨file, hfile, s, hs, kind, hname⟩
    exact ⟨kind, kind.mem_all, file, hfile, s, hs, hname⟩

end Elaborates

/-!
# Sessions
-/

namespace Session

theorem Checked.elaborates {settings : Settings} {load : Loader} {files : List Source.File}
    {σ τ : Session}
    {typed : List Typed.File} (h : Checked settings load files σ typed τ) :
    List.Forall₂ (Source.File.Elaborates fun _ => true) files typed := by
  induction h with
  | nil => exact .nil
  | @cons file _ σ _ _ f _ hrun _ ih =>
      have hfile : file.Elaborates (fun _ => true) f :=
        (Checker.runFile_elaborates (fun _ _ _ => calls_all _)
          (Source.Condition.variablesIn_vacuous.ofStmts file.stmts) (calls_all σ)).2 f
            (congrArg Prod.fst hrun)
      exact .cons hfile ih

theorem Called.compiledIn {settings : Settings} {packages : Resolver} {history : List Source.File}
    {depth : Nat} {package : String} {σ : Session}
    (h : Called settings packages history depth package σ)
    (hstandard : Library.standard? package = none) {m : ModuleTy} {τ : Session}
    (hloaded : load settings packages depth package σ = (.ok m, τ)) :
    ∃ earlier nested σ' files typed,
      CompiledIn settings packages earlier nested package σ' files typed m ∧
      (σ.compiled.get? package = some m ∧ earlier <+: history ∨
        σ.compiled.get? package = none ∧ earlier = history ∧ nested + 1 = depth ∧ σ' = σ) := by
  have hstep := load_step settings packages depth package σ
  generalize load settings packages depth package σ = r at hloaded hstep
  cases hstep with
  | standard hsome =>
      rw [hstandard] at hsome
      cases hsome
  | known _ hknown =>
      cases hloaded
      rcases h.traced package m hknown with ⟨earlier, hearlier, nested, σ', files, typed, hcompiled⟩
      exact ⟨earlier, nested, σ', files, typed, hcompiled, .inl ⟨hknown, hearlier⟩⟩
  | underWay => cases hloaded
  | unavailable => cases hloaded
  | tooDeep => cases hloaded
  | @compiled nested files hnew =>
      rcases compile_cases package files (σ.request (settings.pathOf package)) rfl with
        ⟨n, typed, hcompile, hchecked, hgathers⟩ | ⟨errors, hcompile⟩
      · rw [hcompile] at hloaded
        cases hloaded
        exact ⟨history, nested, σ, files, typed, ⟨h, hnew, ⟨_, hchecked⟩, hgathers⟩,
          .inr ⟨hnew.unknown, rfl, rfl, rfl⟩⟩
      · rw [hcompile] at hloaded
        cases hloaded

/--
After an import of a package that is not a standard one, at any place where a file asks for it, the
local name stands for the last exported declaration of every name, and for no other names.  The
types are those in `typed`: what the files of the package came to when it was compiled.  That is in
the session of the import, unless the package was compiled before; then it is where a file asked for
it first and the compilation succeeded.
-/
theorem import_sees_surface (settings : Settings) (packages : Resolver)
    (history : List Source.File) (depth : Nat) (env : Env)
    (hload : env.load = load settings packages depth) (s t : State) (i : Source.Import)
    (hcalled : Called settings packages history depth i.package.name s.session)
    (hstandard : Library.standard? i.package.name = none) (target : Typed.Import)
    (himport : importModule i env s = (.ok target, t)) :
    ∃ earlier nested σ files typed m scope,
      CompiledIn settings packages earlier nested i.package.name σ files typed m ∧
      (s.session.compiled.get? i.package.name = some m ∧ earlier <+: history ∨
        s.session.compiled.get? i.package.name = none ∧ earlier = history ∧ nested + 1 = depth ∧
          σ = s.session) ∧
      List.Forall₂ (Source.File.Elaborates fun _ => true) files typed ∧
      env.imported? t.session.symbols i.space = some scope ∧
      ∀ name, scope.get? name = (surface files typed name).getLast? ∧
        ((scope.get? name).isSome ↔
          ∃ file ∈ files, ∃ s ∈ file.stmts, ∃ kind, s.exported? kind = some name) := by
  rcases importModule_eq_ok himport with ⟨m, υ, hloaded, ht⟩
  rw [hload] at hloaded
  rcases hcalled.compiledIn hstandard hloaded with
    ⟨earlier, nested, σ, files, typed, hcompiled, hwhere⟩
  rcases hcompiled.checked with ⟨τ, hchecked⟩
  have helaborates := hchecked.elaborates
  refine ⟨earlier, nested, σ, files, typed, m, .ofModule m, hcompiled, hwhere, helaborates, ?_, ?_⟩
  · unfold Env.imported?
    rw [ht]
    exact SymbolTable.imported?_addModule_self _ _ _ _
  · intro name
    exact ⟨Scope.get?_ofModule helaborates hcompiled.gathers name,
      Scope.isSome_get?_ofModule helaborates hcompiled.gathers name⟩

end Session

namespace Sample

def shapes : PackageIndex :=
  ⟨Dict.empty.insert "src/shapes" (.files [
    file "circles" [stmt (.binding ⟨ident "size", false, none, some (expr (.int 1))⟩),
      stmt (.interfaceDecl ⟨ident "Drawable", .isPublic, []⟩)],
    file "squares" [
      stmt (.function ⟨ident "size", .isPublic, [], none⟩ (block [])),
      stmt (.function ⟨ident "edge", .isPrivate, [], none⟩ (block [])),
      stmt (.classDecl ⟨ident "Square", .isPublic, [], [], []⟩)]])⟩

def drawingFile : Source.File :=
  file "drawing" [stmt (.importOne (ident "shapes") none)]

def drawing : Env :=
  ⟨{}, "drawing.aura", "drawing", Session.load {} shapes 1⟩

end Sample

namespace Session

theorem called_shapes : Called {} Sample.shapes [Sample.drawingFile] 1 "shapes" (start {}) := by
  have hok : (check {} Sample.shapes Sample.drawingFile (start {})).1.isOk = true := by
    decide +kernel
  rcases hcheck : check {} Sample.shapes Sample.drawingFile (start {}) with ⟨r, τ⟩
  rw [hcheck] at hok
  cases r with
  | error errors => cases hok
  | ok f =>
      have hstmts : Sample.drawingFile.stmts =
          [Sample.stmt (.moduleName (Sample.ident "drawing"))] ++
        Sample.stmt (.importOne (Sample.ident "shapes") none) :: [] := rfl
      have hasks := Asks.of_first_import hcheck hstmts
        (List.forall_mem_singleton.mpr rfl)
      exact ⟨Sample.drawingFile, start {}, .file [] trivial, hasks⟩

/-- The size is that of circles: it is a variable, and the variables come last. -/
theorem import_sees_surface_shapes :
    ∃ target t files typed scope,
      CheckM.importModule ⟨Sample.ident "shapes", none, default⟩ Sample.drawing
        (Checker.initial {} (start {})) = (.ok target, t) ∧
      Sample.shapes.filesAt "src/shapes" = .ok files ∧
      (∃ τ, Checked {} (load {} Sample.shapes 0) files
        (((start {}).request "src/shapes").beginPackage "shapes") typed τ) ∧
      Sample.drawing.imported? t.session.symbols "shapes" = some scope ∧
      scope.get? "size" = some .int ∧ scope.get? "edge" = none ∧
      ∀ name, scope.get? name = (surface files typed name).getLast? ∧
        ((scope.get? name).isSome ↔
          ∃ file ∈ files, ∃ s ∈ file.stmts, ∃ kind, s.exported? kind = some name) := by
  rcases import_sees_surface {} Sample.shapes [Sample.drawingFile] 1 Sample.drawing rfl
    (Checker.initial {} (start {})) _ ⟨Sample.ident "shapes", none, default⟩ called_shapes rfl _ rfl
    with ⟨_, nested, σ, files, typed, m, scope, hcompiled, hwhere, _, hscope, hsurface⟩
  rcases hwhere with ⟨hknown, _⟩ | ⟨_, _, hdepth, rfl⟩
  · cases hknown
  · cases hdepth
    cases hscope
    exact ⟨_, _, files, typed, _, rfl, hcompiled.uncompiled.files, hcompiled.checked, rfl, rfl, rfl,
      hsurface⟩

end Session
end StaticTyping
