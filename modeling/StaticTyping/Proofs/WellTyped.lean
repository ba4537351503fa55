import StaticTyping.Proofs.Soundness.Session

/-!
# Checked files are well typed

In every session, whatever was checked before and whatever packages there are, a file that is
checked without a fault is well typed.  Files are asked for nothing but what any text read has:
annotations that can be written and no parameter after a variadic one.

Files may also be held to keep the local names of standard packages for them.  Then the members of
texts, lists and errors have the types that these packages give them; otherwise they come from
whatever is imported under the name.

Well typed means that classes are held against interfaces in the forms that the context knows
them in.  The types that trees carry may be older: a class that is declared further down is known
by its name alone while signatures are made, and where the signature of another class mentions it,
it stays so.
-/

namespace StaticTyping

/-- What trees are held to as they are read: annotations that can be written, `noValue` among
them, and at most the last parameter variadic. -/
def Discipline.asRead : Discipline :=
  ⟨true, true, []⟩

/-- The discipline by which local names are kept, too. -/
def Discipline.reserving (D : Discipline) (names : List String) : Discipline :=
  { D with reserved := names }

namespace Sample

def ident (name : String) : Ident :=
  ⟨name, default⟩

def stmt (kind : Source.StmtKind) : Source.Stmt :=
  ⟨kind, default⟩

def expr (kind : Source.ExprKind) : Source.Expr :=
  ⟨kind, default⟩

def var (name : String) : Source.Expr :=
  expr (.var (ident name))

def get (object : Source.Expr) (name : String) : Source.Expr :=
  expr (.get object (ident name))

def param (name type : String) : Source.Param :=
  ⟨ident name, .unknown type, false, none⟩

def block (ss : List Source.Stmt) : Source.Block :=
  ⟨ss, default⟩

def file (module : String) (ss : List Source.Stmt) : Source.File :=
  ⟨module ++ ".aura", stmt (.moduleName (ident module)) :: ss⟩

/-- A function that returns an integer, or so it says. -/
def returning (name : String) (ps : List Source.Param) (value : Source.Expr) : Source.Stmt :=
  stmt (.function ⟨ident name, .isPrivate, ps, some .int⟩ (block [stmt (.ret (some value))]))

def countHead : Source.Head :=
  ⟨ident "count", .isPublic, [], some .int⟩

/-- An interface that asks for a count. -/
def countable : Source.Stmt :=
  stmt (.interfaceDecl ⟨ident "Countable", .isPrivate, [⟨countHead, default⟩]⟩)

/-- A class with a count. -/
def basket : Source.Stmt :=
  stmt (.classDecl ⟨ident "Basket", .isPrivate, [],
    [⟨countHead, block [stmt (.ret (some (expr (.int 1))))], default⟩], []⟩)

/-- A class with a field that is a basket. -/
def cart : Source.Stmt :=
  stmt (.classDecl ⟨ident "Cart", .isPrivate, [param "basket" "Basket"], [], []⟩)

def listing : Source.Stmt :=
  stmt (.function
    ⟨ident "listing", .isPrivate, [param "cart" "Cart", param "item" "Countable"], none⟩
    (block [stmt (.expr (expr (.list [var "item", get (var "cart") "basket"])))]))

/-- With baskets declared below carts, the basket of a cart is a class without its methods. -/
def listingFile : Source.File :=
  file "main" [countable, cart, basket, listing]

/-- A package with a function that has a default and a variadic parameter. -/
def sums : PackageIndex :=
  ⟨Dict.empty.insert "src/sums" (.files [file "sums" [stmt (.function
    ⟨ident "sum", .isPublic, [⟨ident "first", .int, false, some (expr (.int 0))⟩,
      ⟨ident "rest", .int, true, none⟩], some .int⟩
    (block [stmt (.ret (some (var "first")))]))]])⟩

/-- A file that imports the package and calls its function with and without arguments. -/
def sumFile : Source.File :=
  file "totals" [stmt (.importOne (ident "sums") none),
    stmt (.binding ⟨ident "none", false, none,
      some (expr (.call (get (var "sums") "sum") [] default))⟩),
    stmt (.binding ⟨ident "three", false, some .int,
      some (expr (.call (get (var "sums") "sum")
        [⟨none, expr (.int 1)⟩, ⟨none, expr (.int 1)⟩, ⟨none, expr (.int 1)⟩] default))⟩)]

end Sample

end StaticTyping
