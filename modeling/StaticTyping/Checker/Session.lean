import StaticTyping.Checker.File

/-!
# Sessions

The files of a session share one symbol table and the packages compiled so far.  A package is
compiled when it is first imported and kept if that succeeds.  A package that is being compiled
cannot be imported again from within.  The resolver bounds how deep compilations are nested; since
the packages under way are different ones, an index needs no more than it has paths.
-/

namespace StaticTyping

structure Compilation where
  errors : Batch
  exports : Option ModuleTy

namespace Compilation

def start (settings : Settings) : Compilation :=
  ⟨.ofLimit settings.maxErrors, none⟩

def add (c : Compilation) : Except Batch Typed.File → Compilation
  | .ok file =>
      match c.exports with
      | some m => { c with exports := some (m.append file.exports) }
      | none => { c with exports := some file.exports }
  | .error errors => { c with errors := c.errors.extend errors }

def result (c : Compilation) : Except Batch ModuleTy :=
  match c.exports with
  | some m => if c.errors.reported then .error c.errors else .ok m
  | none => .error c.errors

end Compilation

namespace Session

/-- A session in which nothing has been checked. -/
def start (settings : Settings) : Session :=
  ⟨Builtin.bindAll .empty settings.preludeSpace, .empty, [], []⟩

def beginPackage (session : Session) (package : String) : Session :=
  { session with underWay := package :: session.underWay }

def endPackage (session : Session) : Session :=
  { session with underWay := session.underWay.tail }

def request (session : Session) (path : String) : Session :=
  { session with requested := path :: session.requested }

def compileAll (settings : Settings) (load : Loader) :
    List Source.File → Compilation → Session → Compilation × Session
  | [], c, session => (c, session)
  | file :: files, c, session =>
      let after := Checker.runFile settings load file session
      compileAll settings load files (c.add after.1) after.2

def compile (settings : Settings) (load : Loader) (package : String) (files : List Source.File)
    (session : Session) : Except LoadError ModuleTy × Session :=
  let done := compileAll settings load files (.start settings) (session.beginPackage package)
  let session := done.2.endPackage
  match done.1.result with
  | .ok m => (.ok m, { session with compiled := session.compiled.insert package m })
  | .error errors => (.error (.failed errors), session)

/--
A package loaded: a standard one, one compiled before, or else one compiled now.  At most `depth`
compilations are nested; with none left, every package that an index has files for is under way.
-/
def load (settings : Settings) (packages : Resolver) : Nat → Loader
  | depth, package, session =>
      match Library.standard? package, session.compiled.get? package with
      | some m, _ => (.ok m, session)
      | none, some m => (.ok m, session)
      | none, none =>
          if session.underWay.contains package then (.error .cycle, session)
          else
            let session := session.request (settings.pathOf package)
            match packages.filesAt (settings.pathOf package) with
            | .error reason => (.error (.unavailable reason), session)
            | .ok files =>
                match depth with
                | 0 => (.error .cycle, session)
                | depth + 1 => compile settings (load settings packages depth) package files session

/-- How files of a session load packages. -/
def loader (settings : Settings) (packages : Resolver) : Loader :=
  load settings packages packages.depth

/-- A file checked in a session. -/
def check (settings : Settings) (packages : Resolver) (file : Source.File) (session : Session) :
    Except Batch Typed.File × Session :=
  Checker.runFile settings (loader settings packages) file session

end Session
end StaticTyping
