import StaticTyping.Dict
import StaticTyping.PackageIndex
import StaticTyping.Source

/-!
# Conditions on source trees

Many statements hold for files whose parts are of some kind only: the annotations are such as can
be written, no import stands inside a body, a name is not used.  A condition asks something of
every expression, statement, annotation and parameter list of its own, and of every name that is
used as a value; a tree meets it if all its parts do, at any depth.
-/

namespace StaticTyping
namespace Source

/-- What is asked of each part of a tree. -/
structure Condition where
  expr : ExprKind → Bool := fun _ => true
  stmt : StmtKind → Bool := fun _ => true
  ty : Ty → Bool := fun _ => true
  params : List Param → Bool := fun _ => true
  name : String → Bool := fun _ => true

variable (c : Condition)

mutual

/-- Whether all parts of an expression meet a condition. -/
def Expr.meets : Expr → Bool
  | ⟨kind, _⟩ => kind.meets
termination_by structural e => e

def ExprKind.meets : ExprKind → Bool
  | .list items => c.expr (.list items) && Expr.allMeet items
  | .map es => c.expr (.map es) && Entry.allMeet es
  | .var name => c.expr (.var name) && c.name name.name
  | .assign name value => c.expr (.assign name value) && c.name name.name && value.meets
  | .increment e => c.expr (.increment e) && e.meets
  | .decrement e => c.expr (.decrement e) && e.meets
  | .binary left op right => c.expr (.binary left op right) && left.meets && right.meets
  | .logical left op right => c.expr (.logical left op right) && left.meets && right.meets
  | .unary op e => c.expr (.unary op e) && e.meets
  | .group e => c.expr (.group e) && e.meets
  | .is value interface => c.expr (.is value interface) && c.name interface.name && value.meets
  | .call callee args callSpan =>
      c.expr (.call callee args callSpan) && callee.meets && Arg.allMeet args
  | .get object name => c.expr (.get object name) && object.meets
  | .set object name value => c.expr (.set object name value) && object.meets && value.meets
  | .index object index => c.expr (.index object index) && object.meets && index.meets
  | .slice object lower upper =>
      c.expr (.slice object lower upper) && object.meets && lower.meets && upper.meets
  | .block b => c.expr (.block b) && b.meets
  | .cond condition thenBranch otherwise =>
      c.expr (.cond condition thenBranch otherwise) && condition.meets && thenBranch.meets &&
        Expr.optionMeets otherwise
  | .lambda ps ret body =>
      c.expr (.lambda ps ret body) && c.params ps && Param.allMeet ps && ret.all c.ty && body.meets
  | kind => c.expr kind
termination_by structural k => k

def Expr.allMeet : List Expr → Bool
  | [] => true
  | e :: es => e.meets && Expr.allMeet es
termination_by structural es => es

def Entry.allMeet : List Entry → Bool
  | [] => true
  | ⟨key, value⟩ :: es => key.meets && value.meets && Entry.allMeet es
termination_by structural es => es

def Arg.allMeet : List Arg → Bool
  | [] => true
  | ⟨_, value⟩ :: args => value.meets && Arg.allMeet args
termination_by structural args => args

def Expr.optionMeets : Option Expr → Bool
  | none => true
  | some e => e.meets
termination_by structural e => e

def Param.allMeet : List Param → Bool
  | [] => true
  | ⟨_, ty, _, default⟩ :: ps => c.ty ty && Expr.optionMeets default && Param.allMeet ps
termination_by structural ps => ps

def Head.meets : Head → Bool
  | ⟨_, _, ps, ret⟩ => c.params ps && Param.allMeet ps && ret.all c.ty
termination_by structural h => h

def Block.meets : Block → Bool
  | ⟨ss, _⟩ => Stmt.allMeet ss
termination_by structural b => b

def Method.allMeet : List Method → Bool
  | [] => true
  | ⟨h, body, _⟩ :: ms => h.meets && body.meets && Method.allMeet ms
termination_by structural ms => ms

def Requirement.allMeet : List Requirement → Bool
  | [] => true
  | ⟨h, _⟩ :: rs => h.meets && Requirement.allMeet rs
termination_by structural rs => rs

def ClassDecl.meets : ClassDecl → Bool
  | ⟨_, _, ps, ms, implements⟩ =>
      implements.all (fun i => c.name i.name) && c.params ps && Param.allMeet ps &&
        Method.allMeet ms
termination_by structural d => d

def InterfaceDecl.meets : InterfaceDecl → Bool
  | ⟨_, _, rs⟩ => Requirement.allMeet rs
termination_by structural d => d

def Binding.meets : Binding → Bool
  | ⟨_, _, written, init⟩ => written.all c.ty && Expr.optionMeets init
termination_by structural d => d

def Stmt.meets : Stmt → Bool
  | ⟨kind, _⟩ => kind.meets
termination_by structural s => s

def Stmt.optionMeets : Option Stmt → Bool
  | none => true
  | some s => s.meets
termination_by structural s => s

def Stmt.allMeet : List Stmt → Bool
  | [] => true
  | s :: ss => s.meets && Stmt.allMeet ss
termination_by structural ss => ss

def StmtKind.meets : StmtKind → Bool
  | .defer callee args callSpan =>
      c.stmt (.defer callee args callSpan) && callee.meets && Arg.allMeet args
  | .expr value => c.stmt (.expr value) && value.meets
  | .forLoop init condition increment body =>
      c.stmt (.forLoop init condition increment body) && Stmt.optionMeets init &&
        Expr.optionMeets condition && Expr.optionMeets increment && Stmt.allMeet body
  | .forEach name iterable body =>
      c.stmt (.forEach name iterable body) && iterable.meets && Stmt.allMeet body
  | .whileLoop condition body =>
      c.stmt (.whileLoop condition body) && condition.meets && Stmt.allMeet body
  | .function h body => c.stmt (.function h body) && h.meets && body.meets
  | .binding d => c.stmt (.binding d) && d.meets
  | .ret value => c.stmt (.ret value) && Expr.optionMeets value
  | .yield value => c.stmt (.yield value) && value.meets
  | .classDecl d => c.stmt (.classDecl d) && d.meets
  | .interfaceDecl d => c.stmt (.interfaceDecl d) && d.meets
  | kind => c.stmt kind
termination_by structural k => k

end

/-- A test of a condition has come out true. -/
def Met (test : Bool) : Prop :=
  test = true

instance (test : Bool) : Decidable (Met test) :=
  inferInstanceAs (Decidable (test = true))

theorem Met.left {a b : Bool} (h : Met (a && b)) : Met a :=
  (Bool.and_eq_true_iff.mp h).1

theorem Met.right {a b : Bool} (h : Met (a && b)) : Met b :=
  (Bool.and_eq_true_iff.mp h).2

theorem Met.and {a b : Bool} (ha : Met a) (hb : Met b) : Met (a && b) :=
  Bool.and_eq_true_iff.mpr ⟨ha, hb⟩

section Met

variable {c}

theorem Expr.allMeet_of_forall {es : List Expr} (h : ∀ e ∈ es, Met (e.meets c)) :
    Met (Expr.allMeet c es) := by
  induction es with
  | nil => rfl
  | cons e es ih =>
      rcases List.forall_mem_cons.mp h with ⟨he, hes⟩
      exact he.and (ih hes)

theorem Entry.allMeet_of_forall {es : List Entry}
    (h : ∀ e ∈ es, Met (e.key.meets c) ∧ Met (e.value.meets c)) : Met (Entry.allMeet c es) := by
  induction es with
  | nil => rfl
  | cons e es ih =>
      rcases e with ⟨key, value⟩
      rcases List.forall_mem_cons.mp h with ⟨he, hes⟩
      exact (he.1.and he.2).and (ih hes)

theorem Arg.allMeet_of_forall {args : List Arg}
    (h : ∀ a ∈ args, Met (a.value.meets c)) : Met (Arg.allMeet c args) := by
  induction args with
  | nil => rfl
  | cons a args ih =>
      rcases a with ⟨name, value⟩
      rcases List.forall_mem_cons.mp h with ⟨ha, hargs⟩
      exact ha.and (ih hargs)

theorem Expr.optionMeets_of_forall {e : Option Expr}
    (h : ∀ x ∈ e, Met (x.meets c)) : Met (Expr.optionMeets c e) := by
  cases e with
  | none => rfl
  | some e => exact h e rfl

theorem Stmt.optionMeets_of_forall {s : Option Stmt}
    (h : ∀ x ∈ s, Met (x.meets c)) : Met (Stmt.optionMeets c s) := by
  cases s with
  | none => rfl
  | some s => exact h s rfl

theorem Stmt.allMeet_of_forall {ss : List Stmt} (h : ∀ s ∈ ss, Met (s.meets c)) :
    Met (Stmt.allMeet c ss) := by
  induction ss with
  | nil => rfl
  | cons s ss ih =>
      rcases List.forall_mem_cons.mp h with ⟨hs, hss⟩
      exact hs.and (ih hss)

theorem Method.allMeet_of_forall {ms : List Method}
    (hheads : ∀ m ∈ ms, Met (m.head.meets c)) (hbodies : ∀ m ∈ ms, Met (m.body.meets c)) :
    Met (Method.allMeet c ms) := by
  induction ms with
  | nil => rfl
  | cons m ms ih =>
      rcases m with ⟨head, body, span⟩
      rcases List.forall_mem_cons.mp hheads with ⟨hhead, hheads⟩
      rcases List.forall_mem_cons.mp hbodies with ⟨hbody, hbodies⟩
      exact (hhead.and hbody).and (ih hheads hbodies)

theorem Requirement.allMeet_of_forall {rs : List Requirement}
    (h : ∀ r ∈ rs, Met (r.head.meets c)) : Met (Requirement.allMeet c rs) := by
  induction rs with
  | nil => rfl
  | cons r rs ih =>
      rcases r with ⟨head, span⟩
      rcases List.forall_mem_cons.mp h with ⟨hr, hrs⟩
      exact hr.and (ih hrs)

end Met

/-- Whether all statements of a file meet a condition. -/
def File.meets (f : File) : Bool :=
  Stmt.allMeet c f.stmts

/-- What is asked of a part by one condition follows from what is asked of it by another, where that
is known to be met. -/
structure Condition.Entails (known : Prop) (c c' : Condition) : Prop where
  expr : ∀ k, (known → Met (c.expr k)) → Met (c'.expr k)
  stmt : ∀ k, (known → Met (c.stmt k)) → Met (c'.stmt k)
  ty : ∀ t, (known → Met (c.ty t)) → Met (c'.ty t)
  params : ∀ ps, (known → Met (c.params ps)) → Met (c'.params ps)
  name : ∀ n, (known → Met (c.name n)) → Met (c'.name n)

namespace Condition.Entails

variable {c} {known : Prop} {c' : Condition}

theorem left {a b : Bool} (h : known → Met (a && b)) : known → Met a :=
  fun hknown => (h hknown).left

theorem right {a b : Bool} (h : known → Met (a && b)) : known → Met b :=
  fun hknown => (h hknown).right

theorem written (H : Entails known c c') (ret : Option Ty) (h : known → Met (ret.all c.ty)) :
    Met (ret.all c'.ty) := by
  cases ret with
  | none => rfl
  | some t => exact H.ty t h

theorem names (H : Entails known c c') (is : List Ident)
    (h : known → Met (is.all fun i => c.name i.name)) : Met (is.all fun i => c'.name i.name) :=
  List.all_eq_true.mpr fun i hi => H.name i.name fun hknown => List.all_eq_true.mp (h hknown) i hi

mutual

theorem ofExpr (H : Entails known c c') : ∀ e : Expr, (known → Met (e.meets c)) → Met (e.meets c')
  | ⟨kind, _⟩, h => H.ofExprKind kind h
termination_by structural e => e

theorem ofExprKind (H : Entails known c c') :
    ∀ k : ExprKind, (known → Met (k.meets c)) → Met (k.meets c')
  -- the condition on a node is a conjunction nested to the left: the node itself, then its parts
  | .int _, h | .float _, h | .string _, h | .char _, h | .bool _, h | .nil, h | .this, h =>
      H.expr _ h
  | .list items, h => (H.expr _ (left h)).and (H.ofExprs items (right h))
  | .map es, h => (H.expr _ (left h)).and (H.ofEntries es (right h))
  | .var name, h => (H.expr _ (left h)).and (H.name name.name (right h))
  | .assign name value, h =>
      ((H.expr _ (left (left h))).and (H.name name.name (right (left h)))).and
        (H.ofExpr value (right h))
  | .increment e, h => (H.expr _ (left h)).and (H.ofExpr e (right h))
  | .decrement e, h => (H.expr _ (left h)).and (H.ofExpr e (right h))
  | .binary l _ r, h =>
      ((H.expr _ (left (left h))).and (H.ofExpr l (right (left h)))).and (H.ofExpr r (right h))
  | .logical l _ r, h =>
      ((H.expr _ (left (left h))).and (H.ofExpr l (right (left h)))).and (H.ofExpr r (right h))
  | .unary _ e, h => (H.expr _ (left h)).and (H.ofExpr e (right h))
  | .group e, h => (H.expr _ (left h)).and (H.ofExpr e (right h))
  | .is value interface, h =>
      ((H.expr _ (left (left h))).and (H.name interface.name (right (left h)))).and
        (H.ofExpr value (right h))
  | .call callee args _, h =>
      ((H.expr _ (left (left h))).and (H.ofExpr callee (right (left h)))).and
        (H.ofArgs args (right h))
  | .get object _, h => (H.expr _ (left h)).and (H.ofExpr object (right h))
  | .set object _ value, h =>
      ((H.expr _ (left (left h))).and (H.ofExpr object (right (left h)))).and
        (H.ofExpr value (right h))
  | .index object index, h =>
      ((H.expr _ (left (left h))).and (H.ofExpr object (right (left h)))).and
        (H.ofExpr index (right h))
  | .slice object lower upper, h =>
      (((H.expr _ (left (left (left h)))).and (H.ofExpr object (right (left (left h))))).and
        (H.ofExpr lower (right (left h)))).and (H.ofExpr upper (right h))
  | .block b, h => (H.expr _ (left h)).and (H.ofBlock b (right h))
  | .cond condition thenBranch otherwise, h =>
      (((H.expr _ (left (left (left h)))).and (H.ofExpr condition (right (left (left h))))).and
        (H.ofBlock thenBranch (right (left h)))).and (H.ofExprOption otherwise (right h))
  | .lambda ps ret body, h =>
      ((((H.expr _ (left (left (left (left h))))).and (H.params ps (right (left (left (left h)))))).and
        (H.ofParams ps (right (left (left h))))).and (H.written ret (right (left h)))).and
        (H.ofBlock body (right h))
termination_by structural k => k

theorem ofExprs (H : Entails known c c') :
    ∀ es : List Expr, (known → Met (Expr.allMeet c es)) → Met (Expr.allMeet c' es)
  | [], _ => rfl
  | e :: es, h => (H.ofExpr e (left h)).and (H.ofExprs es (right h))
termination_by structural es => es

theorem ofEntries (H : Entails known c c') :
    ∀ es : List Entry, (known → Met (Entry.allMeet c es)) → Met (Entry.allMeet c' es)
  | [], _ => rfl
  | ⟨key, value⟩ :: es, h =>
      ((H.ofExpr key (left (left h))).and (H.ofExpr value (right (left h)))).and
        (H.ofEntries es (right h))
termination_by structural es => es

theorem ofArgs (H : Entails known c c') :
    ∀ args : List Arg, (known → Met (Arg.allMeet c args)) → Met (Arg.allMeet c' args)
  | [], _ => rfl
  | ⟨_, value⟩ :: args, h => (H.ofExpr value (left h)).and (H.ofArgs args (right h))
termination_by structural args => args

theorem ofExprOption (H : Entails known c c') :
    ∀ e : Option Expr, (known → Met (Expr.optionMeets c e)) → Met (Expr.optionMeets c' e)
  | none, _ => rfl
  | some e, h => H.ofExpr e h
termination_by structural e => e

theorem ofParams (H : Entails known c c') :
    ∀ ps : List Param, (known → Met (Param.allMeet c ps)) → Met (Param.allMeet c' ps)
  | [], _ => rfl
  | ⟨_, ty, _, default⟩ :: ps, h =>
      ((H.ty ty (left (left h))).and (H.ofExprOption default (right (left h)))).and
        (H.ofParams ps (right h))
termination_by structural ps => ps

theorem ofHead (H : Entails known c c') : ∀ h : Head, (known → Met (h.meets c)) → Met (h.meets c')
  | ⟨_, _, ps, ret⟩, h =>
      ((H.params ps (left (left h))).and (H.ofParams ps (right (left h)))).and
        (H.written ret (right h))
termination_by structural h => h

theorem ofBlock (H : Entails known c c') :
    ∀ b : Block, (known → Met (b.meets c)) → Met (b.meets c')
  | ⟨ss, _⟩, h => H.ofStmts ss h
termination_by structural b => b

theorem ofMethods (H : Entails known c c') :
    ∀ ms : List Method, (known → Met (Method.allMeet c ms)) → Met (Method.allMeet c' ms)
  | [], _ => rfl
  | ⟨head, body, _⟩ :: ms, h =>
      ((H.ofHead head (left (left h))).and (H.ofBlock body (right (left h)))).and
        (H.ofMethods ms (right h))
termination_by structural ms => ms

theorem ofRequirements (H : Entails known c c') :
    ∀ rs : List Requirement, (known → Met (Requirement.allMeet c rs)) →
      Met (Requirement.allMeet c' rs)
  | [], _ => rfl
  | ⟨head, _⟩ :: rs, h => (H.ofHead head (left h)).and (H.ofRequirements rs (right h))
termination_by structural rs => rs

theorem ofClass (H : Entails known c c') :
    ∀ d : ClassDecl, (known → Met (d.meets c)) → Met (d.meets c')
  | ⟨_, _, ps, ms, implements⟩, h =>
      (((H.names implements (left (left (left h)))).and (H.params ps (right (left (left h))))).and
        (H.ofParams ps (right (left h)))).and (H.ofMethods ms (right h))
termination_by structural d => d

theorem ofInterface (H : Entails known c c') :
    ∀ d : InterfaceDecl, (known → Met (d.meets c)) → Met (d.meets c')
  | ⟨_, _, rs⟩, h => H.ofRequirements rs h
termination_by structural d => d

theorem ofBinding (H : Entails known c c') :
    ∀ d : Binding, (known → Met (d.meets c)) → Met (d.meets c')
  | ⟨_, _, written, init⟩, h =>
      (H.written written (left h)).and (H.ofExprOption init (right h))
termination_by structural d => d

theorem ofStmt (H : Entails known c c') : ∀ s : Stmt, (known → Met (s.meets c)) → Met (s.meets c')
  | ⟨kind, _⟩, h => H.ofStmtKind kind h
termination_by structural s => s

theorem ofStmtOption (H : Entails known c c') :
    ∀ s : Option Stmt, (known → Met (Stmt.optionMeets c s)) → Met (Stmt.optionMeets c' s)
  | none, _ => rfl
  | some s, h => H.ofStmt s h
termination_by structural s => s

theorem ofStmts (H : Entails known c c') :
    ∀ ss : List Stmt, (known → Met (Stmt.allMeet c ss)) → Met (Stmt.allMeet c' ss)
  | [], _ => rfl
  | s :: ss, h => (H.ofStmt s (left h)).and (H.ofStmts ss (right h))
termination_by structural ss => ss

theorem ofStmtKind (H : Entails known c c') :
    ∀ k : StmtKind, (known → Met (k.meets c)) → Met (k.meets c')
  | .defer callee args _, h =>
      ((H.stmt _ (left (left h))).and (H.ofExpr callee (right (left h)))).and
        (H.ofArgs args (right h))
  | .expr value, h => (H.stmt _ (left h)).and (H.ofExpr value (right h))
  | .forLoop init condition increment body, h =>
      ((((H.stmt _ (left (left (left (left h))))).and
        (H.ofStmtOption init (right (left (left (left h)))))).and
        (H.ofExprOption condition (right (left (left h))))).and
        (H.ofExprOption increment (right (left h)))).and (H.ofStmts body (right h))
  | .forEach _ iterable body, h =>
      ((H.stmt _ (left (left h))).and (H.ofExpr iterable (right (left h)))).and
        (H.ofStmts body (right h))
  | .whileLoop condition body, h =>
      ((H.stmt _ (left (left h))).and (H.ofExpr condition (right (left h)))).and
        (H.ofStmts body (right h))
  | .function head body, h =>
      ((H.stmt _ (left (left h))).and (H.ofHead head (right (left h)))).and
        (H.ofBlock body (right h))
  | .binding d, h => (H.stmt _ (left h)).and (H.ofBinding d (right h))
  | .ret value, h => (H.stmt _ (left h)).and (H.ofExprOption value (right h))
  | .yield value, h => (H.stmt _ (left h)).and (H.ofExpr value (right h))
  | .classDecl d, h => (H.stmt _ (left h)).and (H.ofClass d (right h))
  | .interfaceDecl d, h => (H.stmt _ (left h)).and (H.ofInterface d (right h))
  | .moduleName _, h | .importOne _ _, h | .importMany _, h | .comment _, h | .continueLoop, h
  | .breakLoop, h => H.stmt _ h
termination_by structural k => k

end

end Condition.Entails

/-- A condition that asks nothing. -/
structure Condition.Vacuous (c : Condition) : Prop where
  expr : ∀ k, Met (c.expr k)
  stmt : ∀ k, Met (c.stmt k)
  ty : ∀ t, Met (c.ty t)
  params : ∀ ps, Met (c.params ps)
  name : ∀ n, Met (c.name n)

namespace Condition.Vacuous

variable {c}

theorem empty : Vacuous {} :=
  ⟨fun _ => rfl, fun _ => rfl, fun _ => rfl, fun _ => rfl, fun _ => rfl⟩

theorem entailed (H : Vacuous c) : Entails False c c :=
  ⟨fun k _ => H.expr k, fun k _ => H.stmt k, fun t _ => H.ty t, fun ps _ => H.params ps,
    fun n _ => H.name n⟩

theorem ofStmt (H : Vacuous c) (s : Stmt) : Met (s.meets c) :=
  H.entailed.ofStmt s False.elim

theorem ofStmts (H : Vacuous c) (ss : List Stmt) : Met (Stmt.allMeet c ss) :=
  H.entailed.ofStmts ss False.elim

end Condition.Vacuous

end Source

/-- All files that a resolver has meet a condition. -/
def Resolver.Meets (c : Source.Condition) (packages : Resolver) : Prop :=
  ∀ path files, packages.filesAt path = .ok files → ∀ file ∈ files, file.meets c

theorem Resolver.meets_of_vacuous (packages : Resolver) {c : Source.Condition} (h : c.Vacuous) :
    packages.Meets c :=
  fun _ _ _ file _ => h.ofStmts file.stmts

namespace PackageIndex

def meets (c : Source.Condition) (p : PackageIndex) : Bool :=
  p.entries.entries.all fun entry =>
    match entry.2 with
    | .files files => files.all (·.meets c)
    | .unreadable _ => true

theorem mem_of_filesAt {packages : PackageIndex} {path : String} {files : List Source.File}
    (h : packages.filesAt path = .ok files) :
    (path, PackageEntry.files files) ∈ packages.entries.entries := by
  unfold filesAt at h
  split at h
  next hget =>
    cases h
    exact Dict.mem_of_get?_eq_some hget
  next => cases h
  next => cases h

theorem meets_resolver {c : Source.Condition} {p : PackageIndex} (h : p.meets c) :
    p.resolver.Meets c := by
  intro path files hfiles
  have hentry := List.all_eq_true.mp h _ (mem_of_filesAt hfiles)
  exact List.all_eq_true.mp hentry

end PackageIndex
end StaticTyping
