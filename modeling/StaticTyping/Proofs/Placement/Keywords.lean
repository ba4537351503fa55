import StaticTyping.Source

/-!
# Keywords and where they stand

A loop can be left or continued from within it only, a value yielded inside a block, and `this` is
there in the methods of classes.  What stands around a place is read off the tree.  A head, with the
default values of its parameters, stands outside of the function or class that it belongs to.
-/

namespace StaticTyping
namespace Source

/-- A keyword that belongs in some places only. -/
inductive Keyword where
  | breakLoop
  | continueLoop
  | yield
  | this
deriving DecidableEq

/-- What can stand around a place.  The head of a loop counts as part of it. -/
inductive Construct where
  | loop
  | function
  | method
  | classDecl
  | binding
  | ret
  | defer
  | block
deriving DecidableEq

def Construct.bounds : Construct → Bool
  | .block => false
  | _ => true

def Keyword.fits (around : List Construct) : Keyword → Bool
  | .breakLoop | .continueLoop => around.find? Construct.bounds == some .loop
  | .yield => around.contains .block
  | .this => around.contains .method

/-- A keyword on a line, and what stands around it. -/
structure Occurrence where
  keyword : Keyword
  line : UInt32
  around : List Construct

/-- Whether a keyword stands where it belongs. -/
def Occurrence.placed (o : Occurrence) : Bool :=
  o.keyword.fits o.around

mutual

def Expr.keywords (around : List Construct) : Expr → List Occurrence
  | ⟨kind, span⟩ => kind.keywords around span
termination_by structural e => e

def ExprKind.keywords (around : List Construct) : ExprKind → Span → List Occurrence
  | .int _, _ | .float _, _ | .string _, _ | .char _, _ | .bool _, _ | .nil, _ => []
  | .list items, _ => Expr.allKeywords around items
  | .map es, _ => Entry.allKeywords around es
  | .var _, _ => []
  | .this, span => [⟨.this, span.line, around⟩]
  | .assign _ value, _ => value.keywords around
  | .increment e, _ | .decrement e, _ | .unary _ e, _ | .group e, _ => e.keywords around
  | .binary left _ right, _ | .logical left _ right, _ =>
      left.keywords around ++ right.keywords around
  | .is value _, _ => value.keywords around
  | .call callee args _, _ => callee.keywords around ++ Arg.allKeywords around args
  | .get object _, _ => object.keywords around
  | .set object _ value, _ => object.keywords around ++ value.keywords around
  | .index object index, _ => object.keywords around ++ index.keywords around
  | .slice object lower upper, _ =>
      object.keywords around ++ lower.keywords around ++ upper.keywords around
  | .block b, _ => b.keywords around
  | .cond condition thenBranch otherwise, _ =>
      condition.keywords around ++ thenBranch.keywords around ++
        Expr.optionKeywords around otherwise
  | .lambda ps _ body, _ => Param.allKeywords around ps ++ body.keywords (.function :: around)
termination_by structural k => k

def Expr.allKeywords (around : List Construct) : List Expr → List Occurrence
  | [] => []
  | e :: es => e.keywords around ++ Expr.allKeywords around es
termination_by structural es => es

def Entry.allKeywords (around : List Construct) : List Entry → List Occurrence
  | [] => []
  | ⟨key, value⟩ :: es =>
      key.keywords around ++ value.keywords around ++ Entry.allKeywords around es
termination_by structural es => es

def Arg.allKeywords (around : List Construct) : List Arg → List Occurrence
  | [] => []
  | ⟨_, value⟩ :: args => value.keywords around ++ Arg.allKeywords around args
termination_by structural args => args

def Expr.optionKeywords (around : List Construct) : Option Expr → List Occurrence
  | none => []
  | some e => e.keywords around
termination_by structural e => e

def Param.allKeywords (around : List Construct) : List Param → List Occurrence
  | [] => []
  | ⟨_, _, _, default⟩ :: ps => Expr.optionKeywords around default ++ Param.allKeywords around ps
termination_by structural ps => ps

def Head.keywords (around : List Construct) : Head → List Occurrence
  | ⟨_, _, ps, _⟩ => Param.allKeywords around ps
termination_by structural h => h

def Block.keywords (around : List Construct) : Block → List Occurrence
  | ⟨ss, _⟩ => Stmt.allKeywords (.block :: around) ss
termination_by structural b => b

def Method.headKeywords (around : List Construct) : List Method → List Occurrence
  | [] => []
  | ⟨h, _, _⟩ :: ms => h.keywords around ++ Method.headKeywords around ms
termination_by structural ms => ms

def Method.bodyKeywords (around : List Construct) : List Method → List Occurrence
  | [] => []
  | ⟨_, body, _⟩ :: ms => body.keywords (.method :: around) ++ Method.bodyKeywords around ms
termination_by structural ms => ms

def Requirement.allKeywords (around : List Construct) : List Requirement → List Occurrence
  | [] => []
  | ⟨h, _⟩ :: rs => h.keywords around ++ Requirement.allKeywords around rs
termination_by structural rs => rs

def ClassDecl.headKeywords (around : List Construct) : ClassDecl → List Occurrence
  | ⟨_, _, ps, ms, _⟩ => Param.allKeywords around ps ++ Method.headKeywords around ms
termination_by structural d => d

def ClassDecl.bodyKeywords (around : List Construct) : ClassDecl → List Occurrence
  | ⟨_, _, _, ms, _⟩ => Method.bodyKeywords (.classDecl :: around) ms
termination_by structural d => d

def InterfaceDecl.keywords (around : List Construct) : InterfaceDecl → List Occurrence
  | ⟨_, _, rs⟩ => Requirement.allKeywords around rs
termination_by structural d => d

def Binding.keywords (around : List Construct) : Binding → List Occurrence
  | ⟨_, _, _, init⟩ => Expr.optionKeywords (.binding :: around) init
termination_by structural d => d

/-- The keywords in a statement. -/
def Stmt.keywords (around : List Construct) : Stmt → List Occurrence
  | ⟨kind, span⟩ => kind.keywords around span
termination_by structural s => s

def Stmt.optionKeywords (around : List Construct) : Option Stmt → List Occurrence
  | none => []
  | some s => s.keywords around
termination_by structural s => s

def Stmt.allKeywords (around : List Construct) : List Stmt → List Occurrence
  | [] => []
  | s :: ss => s.keywords around ++ Stmt.allKeywords around ss
termination_by structural ss => ss

def StmtKind.keywords (around : List Construct) : StmtKind → Span → List Occurrence
  | .defer callee args _, _ =>
      callee.keywords (.defer :: around) ++ Arg.allKeywords (.defer :: around) args
  | .expr value, _ => value.keywords around
  | .forLoop init condition increment body, _ =>
      Stmt.optionKeywords (.loop :: around) init ++
        (Expr.optionKeywords (.loop :: around) condition ++
          (Expr.optionKeywords (.loop :: around) increment ++
            Stmt.allKeywords (.loop :: around) body))
  | .forEach _ iterable body, _ =>
      iterable.keywords (.loop :: around) ++ Stmt.allKeywords (.loop :: around) body
  | .whileLoop condition body, _ =>
      condition.keywords (.loop :: around) ++ Stmt.allKeywords (.loop :: around) body
  | .function h body, _ => h.keywords around ++ body.keywords (.function :: around)
  | .binding d, _ => d.keywords around
  | .moduleName _, _ => []
  | .ret value, _ => Expr.optionKeywords (.ret :: around) value
  | .yield value, span => ⟨.yield, span.line, around⟩ :: value.keywords around
  | .classDecl d, _ => d.headKeywords around ++ d.bodyKeywords around
  | .interfaceDecl d, _ => d.keywords around
  | .importOne _ _, _ | .importMany _, _ | .comment _, _ => []
  | .continueLoop, span => [⟨.continueLoop, span.line, around⟩]
  | .breakLoop, span => [⟨.breakLoop, span.line, around⟩]
termination_by structural k => k

end

/-- The keywords in a file, around which nothing stands. -/
def File.keywords (file : File) : List Occurrence :=
  Stmt.allKeywords [] file.stmts

end Source
end StaticTyping
