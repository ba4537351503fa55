import StaticTyping.Checker.Names
import StaticTyping.Library.Standard

/-!
# Imports

An import loads a package and makes its members visible to the file under a local name.  If the
package has mistakes of its own, they come into the report first.
-/

namespace StaticTyping
namespace CheckM

def addModule (localName : String) (m : ModuleTy) : CheckM Unit :=
  modify fun env => onSymbols (·.addModule env.file localName m)

def loadPackage (package : String) (line : UInt32) : CheckM ModuleTy := fun env s =>
  let loaded := env.load package s.session
  let s := { s with session := loaded.2 }
  match loaded.1 with
  | .ok m => (.ok m, s)
  | .error .cycle => (.error ⟨.cyclicImport package, line⟩, s)
  | .error (.unavailable reason) => (.error ⟨.unknownModule package reason.message, line⟩, s)
  | .error (.failed errors) =>
      (.error ⟨.importFailed package, line⟩, { s with report := s.report.extend errors })

/-- A package imported under its local name. -/
def importModule (i : Source.Import) : CheckM Typed.Import := do
  let m ← loadPackage i.package.name i.span.line
  addModule i.space m
  pure ⟨i.package.name, i.space⟩

/-- A standard package imported on demand, unless the local name is taken. -/
def importStandard (package localName : String) : CheckM Unit := do
  let present ← imported? localName
  match present, Library.standard? package with
  | none, some m => addModule localName m
  | _, _ => pure ()

end CheckM
end StaticTyping
