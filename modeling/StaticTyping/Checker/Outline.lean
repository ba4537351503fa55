import StaticTyping.Checker.Tree

/-!
# The outline of a file

Before any body is checked, every declaration of a file is made known, so that a function may
call one that is declared further down.  The statements are gone through once for each kind of
declaration, from top to bottom: imports; the names of classes and interfaces; interfaces;
signatures of classes; signatures of functions; variables.  What is complete after that is kept,
and the bodies of functions and classes are checked in a second pass.
-/

namespace StaticTyping

/-- What the first pass knows about a statement. -/
inductive Item where
  | function (head : Source.Head) (body : Source.Block) (span : Span) (sig : NamedFunction)
  | classDecl (decl : Source.ClassDecl) (span : Span) (sig : ClassTy)
  | checked (stmt : Typed.Stmt)
  | unchecked (stmt : Source.Stmt)

structure Slot where
  stmt : Source.Stmt
  item : Option Item

namespace Checker

open CheckM

/-- What a phase does with a statement, if it is of its kind. -/
abbrev Phase :=
  Source.Stmt → Option (CheckM Item)

def importPhase : Phase
  | ⟨.importOne package alias?, span⟩ => some (Item.checked <$> importStmt package alias? span)
  | ⟨.importMany imports, span⟩ => some (Item.checked <$> importsStmt imports span)
  | _ => none

def interfacePhase : Phase
  | ⟨.interfaceDecl d, span⟩ => some (Item.checked <$> interfaceDecl (interfaceOf d) span)
  | _ => none

def classPhase : Phase
  | ⟨.classDecl d, span⟩ => some do
      let sig ← classOf d
      declare d.name.name (.classTy sig)
      pure (.classDecl d span sig)
  | _ => none

def functionPhase : Phase
  | ⟨.function h body, span⟩ => some do
      let sig ← head h span.line
      declare h.name.name (.named sig)
      pure (.function h body span sig)
  | _ => none

def bindingPhase : Phase
  | ⟨.binding d, span⟩ => some (Item.checked <$> bindingOf d span)
  | _ => none

def fillSlot (phase : Phase) (slot : Slot) : CheckM Slot :=
  match phase slot.stmt with
  | none => pure slot
  | some declare => do
      let item ← attempt declare
      match item with
      | some item => pure ⟨slot.stmt, some item⟩
      | none => pure slot

def runPhase (phase : Phase) (slots : List Slot) : CheckM (List Slot) :=
  collect (slots.map (fillSlot phase))

def forward? : Source.Stmt → Option (String × Ty)
  | ⟨.classDecl d, _⟩ => some (d.name.name, .classTy (.forward d.name.name d.visibility))
  | ⟨.interfaceDecl d, _⟩ => some (d.name.name, .interfaceTy (.forward d.name.name d.visibility))
  | _ => none

/-- The first pass: everything declared, statement by statement. -/
def outline (ss : List Source.Stmt) : CheckM (List Item) := do
  let slots ← runPhase importPhase (ss.map fun s => ⟨s, none⟩)
  declareAll (ss.filterMap forward?)
  let slots ← runPhase interfacePhase slots
  let slots ← runPhase classPhase slots
  let slots ← runPhase functionPhase slots
  let slots ← runPhase bindingPhase slots
  pure (slots.map fun slot => slot.item.getD (.unchecked slot.stmt))

/-- The second pass on one statement. -/
def finishItem : Item → CheckM Typed.Stmt
  | .function h body span sig => functionDecl h.name (pure sig) (blockOf body) span
  | .classDecl d span sig => classWith d (pure sig) span
  | .checked s => pure s
  | .unchecked s => stmt s

def finish (items : List Item) : CheckM (List Typed.Stmt) := do
  let stmts ← collect (items.map fun item => attempt (finishItem item))
  pure (stmts.filterMap id)

end Checker
end StaticTyping
