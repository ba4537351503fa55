import StaticTyping.Diagnostic.Basic
import StaticTyping.PackageIndex

/-!
# Where the parts of a file stand

Every node of a source tree has a span, and every identifier in it has one of its own.  A diagnostic
points into a file if it names the path of the file and a line on which one of these spans starts.
A file without statements has no spans; what is reported on it is on the first line.
-/

namespace StaticTyping
namespace Source

def identSpans : Option Ident → List Span
  | none => []
  | some name => [name.span]

def Import.spans (i : Import) : List Span :=
  i.span :: i.package.span :: identSpans i.alias?

mutual

def Expr.spans : Expr → List Span
  | ⟨kind, span⟩ => span :: kind.spans
termination_by structural e => e

def ExprKind.spans : ExprKind → List Span
  | .int _ | .float _ | .string _ | .char _ | .bool _ | .nil | .this => []
  | .list items => Expr.allSpans items
  | .map es => Entry.allSpans es
  | .var name => [name.span]
  | .assign name value => name.span :: value.spans
  | .increment e | .decrement e | .unary _ e | .group e => e.spans
  | .binary left _ right | .logical left _ right => left.spans ++ right.spans
  | .is value interface => interface.span :: value.spans
  | .call callee args callSpan => callSpan :: (callee.spans ++ Arg.allSpans args)
  | .get object name => name.span :: object.spans
  | .set object name value => name.span :: (object.spans ++ value.spans)
  | .index object index => object.spans ++ index.spans
  | .slice object lower upper => object.spans ++ (lower.spans ++ upper.spans)
  | .block b => b.spans
  | .cond condition thenBranch otherwise =>
      condition.spans ++ (thenBranch.spans ++ Expr.optionSpans otherwise)
  | .lambda ps _ body => Param.allSpans ps ++ body.spans
termination_by structural k => k

def Expr.allSpans : List Expr → List Span
  | [] => []
  | e :: es => e.spans ++ Expr.allSpans es
termination_by structural es => es

def Entry.allSpans : List Entry → List Span
  | [] => []
  | ⟨key, value⟩ :: es => key.spans ++ (value.spans ++ Entry.allSpans es)
termination_by structural es => es

def Arg.allSpans : List Arg → List Span
  | [] => []
  | ⟨name, value⟩ :: args => identSpans name ++ (value.spans ++ Arg.allSpans args)
termination_by structural args => args

def Expr.optionSpans : Option Expr → List Span
  | none => []
  | some e => e.spans
termination_by structural e => e

def Param.allSpans : List Param → List Span
  | [] => []
  | ⟨name, _, _, default⟩ :: ps => name.span :: (Expr.optionSpans default ++ Param.allSpans ps)
termination_by structural ps => ps

def Head.spans : Head → List Span
  | ⟨name, _, ps, _⟩ => name.span :: Param.allSpans ps
termination_by structural h => h

def Block.spans : Block → List Span
  | ⟨ss, span⟩ => span :: Stmt.allSpans ss
termination_by structural b => b

def Method.allSpans : List Method → List Span
  | [] => []
  | ⟨h, body, span⟩ :: ms => span :: (h.spans ++ (body.spans ++ Method.allSpans ms))
termination_by structural ms => ms

def Requirement.allSpans : List Requirement → List Span
  | [] => []
  | ⟨h, span⟩ :: rs => span :: (h.spans ++ Requirement.allSpans rs)
termination_by structural rs => rs

def ClassDecl.spans : ClassDecl → List Span
  | ⟨name, _, ps, ms, implements⟩ =>
      name.span :: (Param.allSpans ps ++ (Method.allSpans ms ++ implements.map Ident.span))
termination_by structural d => d

def InterfaceDecl.spans : InterfaceDecl → List Span
  | ⟨name, _, rs⟩ => name.span :: Requirement.allSpans rs
termination_by structural d => d

def Binding.spans : Binding → List Span
  | ⟨name, _, _, init⟩ => name.span :: Expr.optionSpans init
termination_by structural d => d

def Stmt.spans : Stmt → List Span
  | ⟨kind, span⟩ => span :: kind.spans
termination_by structural s => s

def Stmt.optionSpans : Option Stmt → List Span
  | none => []
  | some s => s.spans
termination_by structural s => s

def Stmt.allSpans : List Stmt → List Span
  | [] => []
  | s :: ss => s.spans ++ Stmt.allSpans ss
termination_by structural ss => ss

def StmtKind.spans : StmtKind → List Span
  | .defer callee args callSpan => callSpan :: (callee.spans ++ Arg.allSpans args)
  | .expr value | .yield value => value.spans
  | .forLoop init condition increment body =>
      Stmt.optionSpans init ++ (Expr.optionSpans condition ++
        (Expr.optionSpans increment ++ Stmt.allSpans body))
  | .forEach name iterable body => name.span :: (iterable.spans ++ Stmt.allSpans body)
  | .whileLoop condition body => condition.spans ++ Stmt.allSpans body
  | .function h body => h.spans ++ body.spans
  | .binding d => d.spans
  | .moduleName name => [name.span]
  | .ret value => Expr.optionSpans value
  | .classDecl d => d.spans
  | .interfaceDecl d => d.spans
  | .importOne package alias? => package.span :: identSpans alias?
  | .importMany imports => imports.flatMap Import.spans
  | .comment _ | .continueLoop | .breakLoop => []
termination_by structural k => k

end

def File.spans (file : File) : List Span :=
  Stmt.allSpans file.stmts

theorem Stmt.mem_allSpans {ss : List Stmt} {span : Span} :
    span ∈ Stmt.allSpans ss ↔ ∃ s ∈ ss, span ∈ s.spans := by
  induction ss with
  | nil => simp [Stmt.allSpans]
  | cons s ss ih => simp [Stmt.allSpans, ih]

end Source

/-- A diagnostic on a file, on a line where something in it starts. -/
structure Diagnostic.PointsInto (d : Diagnostic) (file : Source.File) : Prop where
  path : d.file = file.path
  line : (∃ span ∈ file.spans, span.line = d.line) ∨ file.stmts = [] ∧ d.line = 1

/-- A file stands at one of the paths that were asked for. -/
def Resolver.Returns (p : Resolver) (asked : List String) (file : Source.File) : Prop :=
  ∃ path ∈ asked, ∃ files, p.filesAt path = .ok files ∧ file ∈ files

theorem Resolver.Returns.of_subset {p : Resolver} {asked more : List String}
    {file : Source.File} (h : p.Returns asked file) (hsubset : asked ⊆ more) :
    p.Returns more file := by
  rcases h with ⟨path, hpath, hfiles⟩
  exact ⟨path, hsubset hpath, hfiles⟩

end StaticTyping
