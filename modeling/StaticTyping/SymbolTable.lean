import StaticTyping.Dict
import StaticTyping.Ty.Basic

/-!
# The symbol table

Every module has a namespace of its own: a stack of scopes that never loses its root.  Names are
bound in the innermost scope and looked up from the innermost scope outward.  Beside the
namespaces the table holds, for each file, the modules it has imported and the names it gave
them.
-/

namespace StaticTyping

/-- The names of one scope with their types. -/
abbrev Scope :=
  Dict Ty

namespace Scope

/-- The exports of a scope as a module: functions, classes and all others, each in the order of
the names. -/
def toModule (s : Scope) (name : String) : ModuleTy where
  name := name
  functions := s.entries.filterMap fun
    | (_, .named f) => some f
    | _ => none
  classes := s.entries.filterMap fun
    | (_, .classTy c) => some c
    | _ => none
  values := s.entries.filterMap fun
    | (_, .named _) => none
    | (_, .classTy _) => none
    | (name, ty) => some ⟨name, ty⟩

/-- The scope of the members of a module.  Of two members of one name the later one counts. -/
def ofModule (m : ModuleTy) : Scope :=
  Dict.empty.insertAll m.members

end Scope

/-- The scopes of a namespace: the nested ones, innermost first, and the root. -/
structure Scopes where
  nested : List Scope
  root : Scope

namespace Scopes

def empty : Scopes :=
  ⟨[], .empty⟩

instance : Inhabited Scopes := ⟨empty⟩

def toList (s : Scopes) : List Scope :=
  s.nested ++ [s.root]

def depth (s : Scopes) : Nat :=
  s.nested.length + 1

def innermost (s : Scopes) : Scope :=
  s.nested.headD s.root

def lookup? (s : Scopes) (name : String) : Option Ty :=
  s.toList.findSome? (·.get? name)

def bind (s : Scopes) (name : String) (ty : Ty) : Scopes :=
  match s.nested with
  | [] => ⟨[], s.root.insert name ty⟩
  | scope :: outer => ⟨scope.insert name ty :: outer, s.root⟩

def push (s : Scopes) : Scopes :=
  ⟨.empty :: s.nested, s.root⟩

def pop (s : Scopes) : Scopes :=
  ⟨s.nested.tail, s.root⟩

@[simp] theorem pop_push (s : Scopes) : s.push.pop = s :=
  rfl

@[simp] theorem depth_push (s : Scopes) : s.push.depth = s.depth + 1 :=
  rfl

@[simp] theorem depth_bind (s : Scopes) (name : String) (ty : Ty) :
    (s.bind name ty).depth = s.depth := by
  obtain ⟨nested, root⟩ := s
  cases nested <;> rfl

theorem lookup?_push (s : Scopes) (name : String) : s.push.lookup? name = s.lookup? name :=
  rfl

theorem lookup?_bind_self (s : Scopes) (name : String) (ty : Ty) :
    (s.bind name ty).lookup? name = some ty := by
  obtain ⟨nested, root⟩ := s
  cases nested <;> simp [bind, lookup?, toList]

theorem lookup?_bind_of_ne (s : Scopes) {name other : String} (ty : Ty) (h : other ≠ name) :
    (s.bind name ty).lookup? other = s.lookup? other := by
  obtain ⟨nested, root⟩ := s
  cases nested with
  | nil => simp [bind, lookup?, toList, Dict.get?_insert_of_ne _ _ h]
  | cons scope outer =>
      simp [bind, lookup?, toList, List.findSome?_cons, Dict.get?_insert_of_ne _ _ h]

theorem innermost_bind (s : Scopes) (name : String) (ty : Ty) :
    (s.bind name ty).innermost = s.innermost.insert name ty := by
  obtain ⟨nested, root⟩ := s
  cases nested <;> rfl

end Scopes

/--
The namespaces of all modules, the imported modules of each file by their local names, and how
often a namespace with nothing but its root was asked to leave a scope.
-/
structure SymbolTable where
  spaces : Dict Scopes
  imports : Dict (Dict Scope)
  rootExits : Nat

namespace SymbolTable

def empty : SymbolTable :=
  ⟨.empty, .empty, 0⟩

instance : Inhabited SymbolTable := ⟨empty⟩

def scopesOf (t : SymbolTable) (space : String) : Scopes :=
  (t.spaces.get? space).getD .empty

def setScopes (t : SymbolTable) (space : String) (s : Scopes) : SymbolTable :=
  { t with spaces := t.spaces.insert space s }

def bind (t : SymbolTable) (space name : String) (ty : Ty) : SymbolTable :=
  t.setScopes space ((t.scopesOf space).bind name ty)

def bindsInnermost (t : SymbolTable) (space name : String) : Bool :=
  (t.scopesOf space).innermost.contains name

/-- The type of a name in a namespace. -/
def lookup? (t : SymbolTable) (space name : String) : Option Ty :=
  (t.spaces.get? space).bind (·.lookup? name)

def enter (t : SymbolTable) (space : String) : SymbolTable :=
  t.setScopes space (t.scopesOf space).push

def leave (t : SymbolTable) (space : String) : SymbolTable :=
  match t.spaces.get? space with
  | some ⟨[], _⟩ => { t with rootExits := t.rootExits + 1 }
  | some s => t.setScopes space s.pop
  | none => t

def depth (t : SymbolTable) (space : String) : Nat :=
  ((t.spaces.get? space).map Scopes.depth).getD 0

def importsOf (t : SymbolTable) (file : String) : Dict Scope :=
  (t.imports.get? file).getD .empty

/-- The members of a module made visible to a file under a local name. -/
def addModule (t : SymbolTable) (file localName : String) (m : ModuleTy) : SymbolTable :=
  { t with imports := t.imports.insert file ((t.importsOf file).insert localName (.ofModule m)) }

/-- What a file has imported under a local name. -/
def imported? (t : SymbolTable) (file localName : String) : Option Scope :=
  (t.importsOf file).get? localName

@[simp] theorem scopesOf_setScopes_self (t : SymbolTable) (space : String) (s : Scopes) :
    (t.setScopes space s).scopesOf space = s := by
  simp [setScopes, scopesOf]

theorem scopesOf_setScopes_of_ne (t : SymbolTable) {space other : String} (s : Scopes)
    (h : other ≠ space) : (t.setScopes space s).scopesOf other = t.scopesOf other := by
  simp [setScopes, scopesOf, Dict.get?_insert_of_ne _ _ h]

theorem lookup?_bind_self (t : SymbolTable) (space name : String) (ty : Ty) :
    (t.bind space name ty).lookup? space name = some ty := by
  simp [bind, setScopes, lookup?, Scopes.lookup?_bind_self]

theorem lookup?_bind_of_ne_space (t : SymbolTable) {space other : String} (name name' : String)
    (ty : Ty) (h : other ≠ space) :
    (t.bind space name ty).lookup? other name' = t.lookup? other name' := by
  simp [bind, setScopes, lookup?, Dict.get?_insert_of_ne _ _ h]

theorem depth_bind_of_ne (t : SymbolTable) {space other : String} (name : String) (ty : Ty)
    (h : other ≠ space) : (t.bind space name ty).depth other = t.depth other := by
  simp [bind, setScopes, depth, Dict.get?_insert_of_ne _ _ h]

@[simp] theorem imported?_addModule_self (t : SymbolTable) (file localName : String)
    (m : ModuleTy) :
    (t.addModule file localName m).imported? file localName = some (.ofModule m) := by
  simp [addModule, imported?, importsOf]

theorem imported?_addModule_of_ne (t : SymbolTable) {file localName file' localName' : String}
    (m : ModuleTy) (h : file' ≠ file ∨ localName' ≠ localName) :
    (t.addModule file localName m).imported? file' localName' = t.imported? file' localName' := by
  by_cases hf : file' = file
  · subst hf
    have ha : localName' ≠ localName := h.resolve_left (fun hne => hne rfl)
    simp [addModule, imported?, importsOf, Dict.get?_insert_of_ne _ _ ha]
  · simp [addModule, imported?, importsOf, Dict.get?_insert_of_ne _ _ hf]

end SymbolTable
end StaticTyping
