import StaticTyping.Checker.Outline

/-!
# The check of a file

A file names its module, is outlined, and then finished.  Each of the two passes goes through to
its end and fails if anything was reported.
-/

namespace StaticTyping

/-- A file that was checked without a fault. -/
structure Typed.File where
  path : String
  name : String
  stmts : List Typed.Stmt

namespace Typed

def Stmt.exportedFunction? : Stmt → Option NamedFunction
  | ⟨.function f, _⟩ => if f.sig.visibility = .isPublic then some f.sig else none
  | _ => none

def Stmt.exportedClass? : Stmt → Option ClassTy
  | ⟨.classDecl _ sig _, _⟩ => if sig.visibility = .isPublic then some sig else none
  | _ => none

def Stmt.exportedVariable? : Stmt → Option Variable
  | ⟨.binding name _ _ ty _, _⟩ => some ⟨name.name, ty⟩
  | _ => none

/-- The exports of a file: its public functions and classes, and its variables. -/
def File.exports (f : File) : ModuleTy where
  name := f.name
  functions := f.stmts.filterMap Stmt.exportedFunction?
  classes := f.stmts.filterMap Stmt.exportedClass?
  values := f.stmts.filterMap Stmt.exportedVariable?

end Typed

namespace Checker

/-- The name that a file gives to its module. -/
def moduleName? (ss : List Source.Stmt) : Option String :=
  ss.findSome? fun
    | ⟨.moduleName name, _⟩ => some name.name
    | _ => none

def spaceOf (session : Session) (name : String) : String :=
  match session.underWay with
  | [] => name
  | package :: _ => package ++ "::" ++ name

/-- The state before a file is checked. -/
def initial (settings : Settings) (session : Session) : State :=
  ⟨session, [], [], [], .ofLimit settings.maxErrors⟩

def unnamed (settings : Settings) (file : Source.File) : Batch :=
  let line := match file.stmts with
    | [] => 1
    | s :: _ => s.span.line
  (Batch.ofLimit settings.maxErrors).push
    (Fault.diagnose ⟨.missingModuleName, line⟩ file.path)

def takeReport {α : Type} (env : Env) (s : State) : Except Batch α × State :=
  (.error s.report, { s with report := .ofLimit env.settings.maxErrors })

/-- A pass over a file.  It fails if anything was reported. -/
def pass {α : Type} (x : CheckM α) (env : Env) (s : State) : Except Batch α × State :=
  match x.attempt env s with
  | (.ok (some a), s) => if s.report.reported then takeReport env s else (.ok a, s)
  | (_, s) => takeReport env s

/-- The surroundings of a file in a session, if it names its module. -/
def envOf (settings : Settings) (load : Loader) (session : Session) (file : Source.File) :
    Option (String × Env) :=
  (moduleName? file.stmts).map fun name =>
    (name, ⟨settings, file.path, spaceOf session name, load⟩)

def runFile (settings : Settings) (load : Loader) (file : Source.File) (session : Session) :
    Except Batch Typed.File × Session :=
  match envOf settings load session file with
  | none => (.error (unnamed settings file), session)
  | some (name, env) =>
      match pass (outline file.stmts) env (initial settings session) with
      | (.error errors, s) => (.error errors, s.session)
      | (.ok items, s) =>
          match pass (finish items) env s with
          | (.error errors, s) => (.error errors, s.session)
          | (.ok stmts, s) => (.ok ⟨file.path, name, stmts⟩, s.session)

end Checker
end StaticTyping
