import StaticTyping.Checker.Session
import StaticTyping.Diagnostic.Document
import StaticTyping.Proofs.Acceptance
import StaticTyping.Proofs.Bindings
import StaticTyping.Proofs.BoundedLog
import StaticTyping.Proofs.BuiltinMethods
import StaticTyping.Proofs.Comments
import StaticTyping.Proofs.Defaults
import StaticTyping.Proofs.Documents
import StaticTyping.Proofs.Elaborated
import StaticTyping.Proofs.Exports
import StaticTyping.Proofs.ForwardReferences
import StaticTyping.Proofs.FunctionOrder
import StaticTyping.Proofs.ImportGraph
import StaticTyping.Proofs.ImportedClasses
import StaticTyping.Proofs.ImportedModules
import StaticTyping.Proofs.Location
import StaticTyping.Proofs.Nesting
import StaticTyping.Proofs.Once
import StaticTyping.Proofs.Placement
import StaticTyping.Proofs.Prelude
import StaticTyping.Proofs.Resolution
import StaticTyping.Proofs.Retry
import StaticTyping.Proofs.Settled
import StaticTyping.Proofs.Surface
import StaticTyping.Proofs.Truncation
