import StaticTyping.Diagnostic.Batch
import StaticTyping.Context
import StaticTyping.Fault
import StaticTyping.PackageIndex
import StaticTyping.Settings
import StaticTyping.SymbolTable

/-!
# Checks

A check reads the surroundings of a file, changes the state and gives a value or a fault.  What
it has changed stays changed if it ends in a fault.  Scopes and enclosing constructs are entered
around a check and left after it, whichever way it ends.
-/

namespace StaticTyping

/-- Why a package could not be loaded. -/
inductive LoadError where
  | cycle
  | unavailable (reason : PackageError)
  | failed (errors : Batch)

/--
What the files of a session share: the symbols, the packages compiled so far, the packages being
compiled, innermost first, and the paths whose files were asked for, last first.
-/
structure Session where
  symbols : SymbolTable
  compiled : Dict ModuleTy
  underWay : List String
  requested : List String

/-- Loads a package in a session. -/
abbrev Loader :=
  String → Session → Except LoadError ModuleTy × Session

/-- The surroundings of a file: the settings, its path, the namespace of its module, and how
packages are loaded. -/
structure Env where
  settings : Settings
  file : String
  space : String
  load : Loader

/-- What checking a file changes: the session, the enclosing constructs and the report. -/
structure State where
  session : Session
  classes : ContextStack ClassTy
  exprs : ContextStack ExprContext
  stmts : ContextStack StmtContext
  report : Batch

/-- A check with a result. -/
def CheckM (α : Type) : Type :=
  Env → State → Except Fault α × State

namespace CheckM

variable {α β : Type}

protected def pure (a : α) : CheckM α := fun _ s =>
  (.ok a, s)

protected def bind (x : CheckM α) (f : α → CheckM β) : CheckM β := fun env s =>
  match x env s with
  | (.ok a, s) => f a env s
  | (.error e, s) => (.error e, s)

instance : Monad CheckM where
  pure := CheckM.pure
  bind := CheckM.bind

def fail (cause : Cause) (line : UInt32) : CheckM α := fun _ s =>
  (.error ⟨cause, line⟩, s)

def view (f : Env → State → α) : CheckM α := fun env s =>
  (.ok (f env s), s)

def modify (f : Env → State → State) : CheckM Unit := fun env s =>
  (.ok (), f env s)

def require (ok : Bool) (cause : Cause) (line : UInt32) : CheckM Unit :=
  if ok then pure () else fail cause line

def orFail (a : Option α) (cause : Cause) (line : UInt32) : CheckM α :=
  match a with
  | some a => pure a
  | none => fail cause line

def mapCause (f : Cause → Cause) (x : CheckM α) : CheckM α := fun env s =>
  match x env s with
  | (.error e, s) => (.error ⟨f e.cause, e.line⟩, s)
  | r => r

/-- Checks in order, as far as the first fault. -/
def collect : List (CheckM α) → CheckM (List α)
  | [] => pure []
  | x :: xs => do
      let a ← x
      let as ← collect xs
      pure (a :: as)

def optional : Option (CheckM α) → CheckM (Option α)
  | none => pure none
  | some x => do
      let a ← x
      pure (some a)

def around (enter leave : Env → State → State) (x : CheckM α) : CheckM α := fun env s =>
  let after := x env (enter env s)
  (after.1, leave env after.2)

def onSymbols (f : SymbolTable → SymbolTable) (s : State) : State :=
  { s with session := { s.session with symbols := f s.session.symbols } }

def inScope (x : CheckM α) : CheckM α :=
  around (fun env => onSymbols (·.enter env.space)) (fun env => onSymbols (·.leave env.space)) x

def inStmt (c : StmtContext) (x : CheckM α) : CheckM α :=
  around (fun _ s => { s with stmts := s.stmts.push c })
    (fun _ s => { s with stmts := s.stmts.pop }) x

def inExpr (c : ExprContext) (x : CheckM α) : CheckM α :=
  around (fun _ s => { s with exprs := s.exprs.push c })
    (fun _ s => { s with exprs := s.exprs.pop }) x

def inClass (c : ClassTy) (x : CheckM α) : CheckM α :=
  around (fun _ s => { s with classes := s.classes.push c })
    (fun _ s => { s with classes := s.classes.pop }) x

def declare (name : String) (ty : Ty) : CheckM Unit :=
  modify fun env => onSymbols (·.bind env.space name ty)

def declareAll : List (String × Ty) → CheckM Unit
  | [] => pure ()
  | (name, ty) :: rest => do
      declare name ty
      declareAll rest

def attempt (x : CheckM α) : CheckM (Option α) := fun env s =>
  match x env s with
  | (.ok a, s) => (.ok (some a), s)
  | (.error e, s) => (.ok none, { s with report := s.report.push (e.diagnose env.file) })

instance : LawfulMonad CheckM :=
  LawfulMonad.mk' CheckM
    (fun x => by
      funext env s
      show CheckM.bind x CheckM.pure env s = x env s
      unfold CheckM.bind
      rcases x env s with ⟨r, s⟩
      cases r <;> rfl)
    (fun _ _ => rfl)
    (fun x f g => by
      funext env s
      show CheckM.bind (CheckM.bind x f) g env s =
        CheckM.bind x (fun a => CheckM.bind (f a) g) env s
      simp only [CheckM.bind]
      rcases x env s with ⟨r, s⟩
      cases r <;> rfl)

@[simp] theorem pure_apply (a : α) (env : Env) (s : State) :
    (pure a : CheckM α) env s = (.ok a, s) :=
  rfl

@[simp] theorem fail_apply (cause : Cause) (line : UInt32) (env : Env) (s : State) :
    (fail cause line : CheckM α) env s = (.error ⟨cause, line⟩, s) :=
  rfl

theorem bind_apply_of_ok {x : CheckM α} {f : α → CheckM β} {env : Env} {s s' : State} {a : α}
    (h : x env s = (.ok a, s')) : (x >>= f) env s = f a env s' := by
  show CheckM.bind x f env s = _
  rw [CheckM.bind, h]

theorem bind_apply_of_error {x : CheckM α} {f : α → CheckM β} {env : Env} {s s' : State}
    {e : Fault} (h : x env s = (.error e, s')) : (x >>= f) env s = (.error e, s') := by
  show CheckM.bind x f env s = _
  rw [CheckM.bind, h]

theorem bind_apply_eq_ok {x : CheckM α} {f : α → CheckM β} {env : Env} {s t : State} {b : β} :
    (x >>= f) env s = (.ok b, t) ↔
      ∃ a s', x env s = (.ok a, s') ∧ f a env s' = (.ok b, t) := by
  constructor
  · intro h
    rcases hx : x env s with ⟨r, s'⟩
    cases r with
    | error e =>
        rw [bind_apply_of_error hx] at h
        cases h
    | ok a =>
        rw [bind_apply_of_ok hx] at h
        exact ⟨a, s', rfl, h⟩
  · rintro ⟨a, s', hx, hf⟩
    rw [bind_apply_of_ok hx, hf]

end CheckM
end StaticTyping
