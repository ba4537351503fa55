import StaticTyping.Proofs.Comments.Types
import StaticTyping.Proofs.Frame

/-!
# Symbol tables without comments

Every operation of a symbol table comes to the same whether comments are left out of the types
before it or after it.
-/

namespace StaticTyping

/-!
# Dictionaries with other values
-/

namespace Dict

variable {α β : Type}

def map (f : α → β) (d : Dict α) : Dict β where
  entries := d.entries.map fun e => (e.1, f e.2)
  sorted := d.sorted.map _ fun _ _ h => h

theorem find?_map (f : α → β) (name : String) (entries : List (String × α)) :
    find? name (entries.map fun e => (e.1, f e.2)) = (find? name entries).map f := by
  induction entries with
  | nil => rfl
  | cons e rest ih =>
      rcases e with ⟨key, v⟩
      show (if name = key then some (f v) else find? name (rest.map _)) =
        (if name = key then some v else find? name rest).map f
      split
      · rfl
      · exact ih

@[simp] theorem get?_map (f : α → β) (d : Dict α) (name : String) :
    (d.map f).get? name = (d.get? name).map f :=
  find?_map f name d.entries

theorem map_insert (f : α → β) (d : Dict α) (name : String) (value : α) :
    (d.insert name value).map f = (d.map f).insert name (f value) := by
  apply ext_get?
  intro other
  simp only [get?_map, get?_insert]
  split <;> rfl

theorem map_insertAll (f : α → β) (d : Dict α) (pairs : List (String × α)) :
    (d.insertAll pairs).map f = (d.map f).insertAll (pairs.map fun b => (b.1, f b.2)) := by
  induction pairs generalizing d with
  | nil => rfl
  | cons b rest ih =>
      show ((d.insert b.1 b.2).insertAll rest).map f = _
      rw [ih, map_insert]
      rfl

theorem map_id {d : Dict α} {f : α → α} (h : ∀ a, f a = a) : d.map f = d := by
  apply ext_get?
  intro name
  rw [get?_map]
  cases d.get? name with
  | none => rfl
  | some a => exact congrArg some (h a)

end Dict

/-!
# Scopes
-/

variable (cut : Cut)

def Scope.strip (s : Scope) : Scope :=
  s.map (Ty.strip cut)

def Scopes.strip (s : Scopes) : Scopes :=
  ⟨s.nested.map (Scope.strip cut), s.root.strip cut⟩

def SymbolTable.strip (t : SymbolTable) : SymbolTable where
  spaces := t.spaces.map (Scopes.strip cut)
  imports := t.imports.map (Dict.map (Scope.strip cut))
  rootExits := t.rootExits

section

variable {cut}

theorem Scope.strip_eq_self (h : cut.defaults = .nothing) (s : Scope) : s.strip cut = s :=
  Dict.map_id (Ty.strip_eq_self h)

theorem Scopes.strip_eq_self (h : cut.defaults = .nothing) (s : Scopes) : s.strip cut = s := by
  rcases s with ⟨nested, root⟩
  show Scopes.mk _ _ = Scopes.mk _ _
  rw [Scope.strip_eq_self h, List.map_congr_left fun scope _ => Scope.strip_eq_self h scope,
    List.map_id']

theorem SymbolTable.strip_eq_self (h : cut.defaults = .nothing) (t : SymbolTable) :
    t.strip cut = t := by
  rcases t with ⟨spaces, imports, rootExits⟩
  have hspaces : spaces.map (Scopes.strip cut) = spaces := Dict.map_id (Scopes.strip_eq_self h)
  have himports : imports.map (Dict.map (Scope.strip cut)) = imports :=
    Dict.map_id fun _ => Dict.map_id (Scope.strip_eq_self h)
  show SymbolTable.mk _ _ _ = SymbolTable.mk _ _ _
  rw [hspaces, himports]

@[simp] theorem Scope.get?_strip (s : Scope) (name : String) :
    (s.strip cut).get? name = (s.get? name).map (Ty.strip cut) :=
  Dict.get?_map _ s name

theorem Scope.strip_insert (s : Scope) (name : String) (ty : Ty) :
    Scope.strip cut (Dict.insert s name ty) = (s.strip cut).insert name (ty.strip cut) :=
  Dict.map_insert _ s name ty

theorem Scope.toModule_strip (s : Scope) (name : String) :
    (s.strip cut).toModule name = (s.toModule name).strip cut := by
  unfold Scope.toModule ModuleTy.strip
  rw [NamedFunction.stripAll_eq_map, ClassTy.stripAll_eq_map, Variable.stripAll_eq_map]
  simp only [Scope.strip, Dict.map, List.filterMap_map, List.map_filterMap]
  congr 1 <;>
  · congr 1
    funext e
    rcases e with ⟨_, ty⟩
    cases ty <;> rfl

theorem Scope.strip_ofModule (m : ModuleTy) :
    (Scope.ofModule m).strip cut = Scope.ofModule (m.strip cut) := by
  unfold Scope.ofModule
  rw [m.members_strip]
  exact Dict.map_insertAll _ _ _

theorem Scopes.lookup?_strip (s : Scopes) (name : String) :
    (s.strip cut).lookup? name = (s.lookup? name).map (Ty.strip cut) := by
  have htoList : (s.strip cut).toList = s.toList.map (Scope.strip cut) := by
    unfold toList strip
    rw [List.map_append]
    rfl
  unfold lookup?
  rw [htoList]
  induction s.toList with
  | nil => rfl
  | cons scope rest ih =>
      rw [List.map_cons, List.findSome?_cons, List.findSome?_cons, Scope.get?_strip]
      cases scope.get? name with
      | none => exact ih
      | some ty => rfl

theorem Scopes.strip_bind (s : Scopes) (name : String) (ty : Ty) :
    (s.bind name ty).strip cut = (s.strip cut).bind name (ty.strip cut) := by
  rcases s with ⟨nested, root⟩
  cases nested with
  | nil => exact congrArg (Scopes.mk []) (Scope.strip_insert root name ty)
  | cons scope outer =>
      exact congrArg (fun scope => Scopes.mk (scope :: outer.map _) (root.strip cut))
        (Scope.strip_insert scope name ty)

/-!
# Tables
-/

namespace SymbolTable

theorem strip_scopesOf (t : SymbolTable) (space : String) :
    (t.strip cut).scopesOf space = (t.scopesOf space).strip cut := by
  show ((t.spaces.map (Scopes.strip cut)).get? space).getD .empty = _
  rw [Dict.get?_map]
  unfold scopesOf
  cases t.spaces.get? space <;> rfl

theorem strip_setScopes (t : SymbolTable) (space : String) (s : Scopes) :
    (t.setScopes space s).strip cut = (t.strip cut).setScopes space (s.strip cut) :=
  congrArg (SymbolTable.mk · _ _) (Dict.map_insert _ t.spaces space s)

theorem strip_bind (t : SymbolTable) (space name : String) (ty : Ty) :
    (t.bind space name ty).strip cut = (t.strip cut).bind space name (ty.strip cut) := by
  unfold bind
  rw [strip_setScopes, strip_scopesOf, Scopes.strip_bind]

theorem strip_enter (t : SymbolTable) (space : String) :
    (t.enter space).strip cut = (t.strip cut).enter space := by
  unfold enter
  rw [strip_setScopes, strip_scopesOf]
  rfl

theorem strip_leave (t : SymbolTable) (space : String) :
    (t.leave space).strip cut = (t.strip cut).leave space := by
  have hget : (t.strip cut).spaces.get? space = (t.spaces.get? space).map (Scopes.strip cut) :=
    Dict.get?_map _ _ _
  unfold leave
  rw [hget]
  rcases t.spaces.get? space with _ | ⟨nested, root⟩
  · rfl
  · cases nested with
    | nil => rfl
    | cons scope outer => exact strip_setScopes t space ⟨outer, root⟩

theorem lookup?_strip (t : SymbolTable) (space name : String) :
    (t.strip cut).lookup? space name = (t.lookup? space name).map (Ty.strip cut) := by
  show ((t.spaces.map (Scopes.strip cut)).get? space).bind _ = _
  rw [Dict.get?_map]
  unfold lookup?
  cases t.spaces.get? space with
  | none => rfl
  | some s => exact s.lookup?_strip name

theorem strip_importsOf (t : SymbolTable) (file : String) :
    (t.strip cut).importsOf file = (t.importsOf file).map (Scope.strip cut) := by
  show ((t.imports.map (Dict.map (Scope.strip cut))).get? file).getD .empty = _
  rw [Dict.get?_map]
  unfold importsOf
  cases t.imports.get? file <;> rfl

theorem imported?_strip (t : SymbolTable) (file localName : String) :
    (t.strip cut).imported? file localName =
      (t.imported? file localName).map (Scope.strip cut) := by
  unfold imported?
  rw [strip_importsOf, Dict.get?_map]

theorem strip_addModule (t : SymbolTable) (file localName : String) (m : ModuleTy) :
    (t.addModule file localName m).strip cut =
      (t.strip cut).addModule file localName (m.strip cut) := by
  have himports : ((t.importsOf file).insert localName (.ofModule m)).map (Scope.strip cut) =
      ((t.strip cut).importsOf file).insert localName (.ofModule (m.strip cut)) := by
    rw [Dict.map_insert, strip_importsOf, Scope.strip_ofModule]
  have hall := Dict.map_insert (Dict.map (Scope.strip cut)) t.imports file
    ((t.importsOf file).insert localName (.ofModule m))
  rw [himports] at hall
  exact congrArg (SymbolTable.mk _ · _) hall

end SymbolTable

/-!
# Standard packages
-/

theorem Builtin.functions_strip : ∀ f ∈ Builtin.functions, f.strip cut = f := by
  intro f hf
  simp only [Builtin.functions, List.mem_cons, List.not_mem_nil, or_false] at hf
  rcases hf with rfl | rfl | rfl | rfl | rfl | rfl <;> rfl

theorem Library.standard?_strip {package : String} {m : ModuleTy}
    (h : Library.standard? package = some m) : m.strip cut = m := by
  refine Library.of_standard? (P := fun m => m.strip cut = m) (fun p hp => ?_) h
  simp only [Library.packages, List.mem_cons, List.not_mem_nil, or_false] at hp
  rcases hp with rfl | rfl | rfl | rfl | rfl | rfl <;> rfl

theorem SymbolTable.strip_addStandard (t : SymbolTable) (file package localName : String) :
    (t.addStandard file package localName).strip cut =
      (t.strip cut).addStandard file package localName := by
  unfold addStandard
  rw [imported?_strip]
  cases t.imported? file localName with
  | some scope => rfl
  | none =>
      cases hm : Library.standard? package with
      | none => rfl
      | some m =>
          show (t.addModule file localName m).strip cut = _
          rw [strip_addModule, Library.standard?_strip hm]
          rfl

end

end StaticTyping
