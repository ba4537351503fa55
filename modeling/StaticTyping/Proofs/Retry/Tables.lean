import StaticTyping.Proofs.Order.Passes
import StaticTyping.Proofs.Order.Standard

/-!
# Tables written to again

A file leaves names, imported modules and standard packages in the symbol table.  Where it leaves
them a second time, they change nothing.
-/

namespace StaticTyping
namespace SymbolTable

variable {t u : SymbolTable} {space file : String}

/-!
# Names
-/

theorem bind_bind_self (t : SymbolTable) (space name : String) (x y : Ty) :
    (t.bind space name x).bind space name y = t.bind space name y := by
  have hscopes : ∀ s : Scopes, (s.bind name x).bind name y = s.bind name y := by
    rintro ⟨nested, root⟩
    cases nested with
    | nil => exact congrArg (Scopes.mk []) (Dict.insert_insert_self root name x y)
    | cons scope outer =>
        exact congrArg (fun scope => Scopes.mk (scope :: outer) root)
          (Dict.insert_insert_self scope name x y)
  unfold bind
  rw [scopesOf_setScopes_self, hscopes]
  unfold setScopes
  rw [Dict.insert_insert_self]

theorem bindAll_bind_of_mem (t : SymbolTable) (space : String) {b : String × Ty}
    {bs : List (String × Ty)} (h : b.1 ∈ bs.map Prod.fst) :
    (t.bind space b.1 b.2).bindAll space bs = t.bindAll space bs := by
  induction bs generalizing t with
  | nil => exact absurd h List.not_mem_nil
  | cons c bs ih =>
      show ((t.bind space b.1 b.2).bind space c.1 c.2).bindAll space bs =
        (t.bind space c.1 c.2).bindAll space bs
      by_cases hsame : b.1 = c.1
      · rw [← hsame, bind_bind_self]
      · rw [t.bind_comm space _ _ hsame]
        exact ih _ ((List.mem_cons.mp h).resolve_left hsame)

theorem bindAll_bindAll (t : SymbolTable) (space : String) {bs cs : List (String × Ty)}
    (h : ∀ b ∈ bs, b.1 ∈ cs.map Prod.fst) :
    (t.bindAll space bs).bindAll space cs = t.bindAll space cs := by
  induction bs generalizing t with
  | nil => rfl
  | cons b bs ih =>
      rcases List.forall_mem_cons.mp h with ⟨hb, hbs⟩
      exact (ih _ hbs).trans (t.bindAll_bind_of_mem space hb)

theorem imports_bindAll (t : SymbolTable) (space : String) (bs : List (String × Ty)) :
    (t.bindAll space bs).imports = t.imports := by
  induction bs generalizing t with
  | nil => rfl
  | cons b bs ih => exact ih _

/-- Two tables in which names have the same types, apart from some, and a file has imported the
same. -/
structure SameBut (names : List String) (file : String) (t u : SymbolTable) : Prop where
  lookup : ∀ space {name}, name ∉ names → u.lookup? space name = t.lookup? space name
  imported : ∀ localName, u.imported? file localName = t.imported? file localName

namespace SameBut

variable {names : List String}

theorem refl (t : SymbolTable) : t.SameBut names file t :=
  ⟨fun _ _ _ => rfl, fun _ => rfl⟩

theorem trans {v : SymbolTable} (h : t.SameBut names file u) (h' : u.SameBut names file v) :
    t.SameBut names file v :=
  ⟨fun space _ hname => (h'.lookup space hname).trans (h.lookup space hname),
    fun localName => (h'.imported localName).trans (h.imported localName)⟩

theorem bind (h : t.SameBut names file u) (space name : String) (ty : Ty) :
    (t.bind space name ty).SameBut names file (u.bind space name ty) := by
  refine ⟨fun other other' hother => ?_, h.imported⟩
  by_cases hspace : other = space
  · subst hspace
    by_cases hname : other' = name
    · subst hname
      rw [lookup?_bind_self, lookup?_bind_self]
    · have hlookup := h.lookup other hother
      simp only [lookup?_eq_scopesOf, SymbolTable.bind, scopesOf_setScopes_self] at hlookup ⊢
      rw [Scopes.lookup?_bind_of_ne _ ty hname, Scopes.lookup?_bind_of_ne _ ty hname, hlookup]
  · rw [lookup?_bind_of_ne_space _ _ _ ty hspace, lookup?_bind_of_ne_space _ _ _ ty hspace]
    exact h.lookup other hother

theorem bindAll (h : t.SameBut names file u) (space : String) (bs : List (String × Ty)) :
    (t.bindAll space bs).SameBut names file (u.bindAll space bs) := by
  induction bs generalizing t u with
  | nil => exact h
  | cons b bs ih => exact ih (h.bind space b.1 b.2)

theorem bind_of_mem (t : SymbolTable) (space : String) {name : String} (hname : name ∈ names)
    (ty : Ty) : t.SameBut names file (t.bind space name ty) := by
  refine ⟨fun other other' hother => ?_, fun _ => rfl⟩
  by_cases hspace : other = space
  · subst hspace
    simp only [lookup?_eq_scopesOf, SymbolTable.bind, scopesOf_setScopes_self]
    exact Scopes.lookup?_bind_of_ne _ ty fun hsame => hother (hsame ▸ hname)
  · exact lookup?_bind_of_ne_space _ _ _ ty hspace

theorem rebind (t : SymbolTable) (space : String) {bs cs : List (String × Ty)}
    (h : ∀ b ∈ bs, b.1 ∈ cs.map Prod.fst ∨ b.1 ∈ names) :
    (t.bindAll space cs).SameBut names file ((t.bindAll space bs).bindAll space cs) := by
  induction bs generalizing t with
  | nil => exact .refl _
  | cons b bs ih =>
      rcases List.forall_mem_cons.mp h with ⟨hb, hbs⟩
      refine SameBut.trans ?_ (ih (t.bind space b.1 b.2) hbs)
      rcases hb with hb | hb
      · rw [t.bindAll_bind_of_mem space hb]
        exact .refl _
      · exact (bind_of_mem t space hb b.2).bindAll space cs

end SameBut

/-!
# Modules
-/

def addModules (t : SymbolTable) (file : String) (ms : List (String × ModuleTy)) : SymbolTable :=
  ms.foldl (fun t m => t.addModule file m.1 m.2) t

theorem addModules_append (t : SymbolTable) (file : String) (ms ns : List (String × ModuleTy)) :
    t.addModules file (ms ++ ns) = (t.addModules file ms).addModules file ns :=
  List.foldl_append

theorem imported?_addModules_of_not_mem (t : SymbolTable) (file : String) {localName : String}
    {ms : List (String × ModuleTy)} (h : localName ∉ ms.map Prod.fst) :
    (t.addModules file ms).imported? file localName = t.imported? file localName := by
  induction ms generalizing t with
  | nil => rfl
  | cons m ms ih =>
      rcases not_or.mp (fun hor => h (List.mem_cons.mpr hor)) with ⟨hm, hms⟩
      exact (ih _ hms).trans (t.imported?_addModule_of_ne m.2 (.inr hm))

theorem addModule_eq_self {localName : String} {m : ModuleTy}
    (h : t.imported? file localName = some (.ofModule m)) : t.addModule file localName m = t := by
  unfold imported? importsOf at h
  cases hfile : t.imports.get? file with
  | none =>
      rw [hfile] at h
      cases h
  | some own =>
      rw [hfile] at h
      have hown : own.insert localName (.ofModule m) = own := Dict.insert_eq_self h
      have himports : t.imports.insert file own = t.imports := Dict.insert_eq_self hfile
      unfold addModule importsOf
      rw [hfile, Option.getD_some, hown, himports]

theorem addModule_addModule_self (t : SymbolTable) (file localName : String) (m n : ModuleTy) :
    (t.addModule file localName m).addModule file localName n = t.addModule file localName n := by
  unfold addModule importsOf
  simp only [Dict.get?_insert_self, Option.getD_some, Dict.insert_insert_self]

theorem addModules_addModule_of_mem (t : SymbolTable) (file : String) {localName : String}
    (m : ModuleTy) {ms : List (String × ModuleTy)} (h : localName ∈ ms.map Prod.fst) :
    (t.addModule file localName m).addModules file ms = t.addModules file ms := by
  induction ms generalizing t with
  | nil => exact absurd h List.not_mem_nil
  | cons n ms ih =>
      show ((t.addModule file localName m).addModule file n.1 n.2).addModules file ms =
        (t.addModule file n.1 n.2).addModules file ms
      by_cases hsame : localName = n.1
      · rw [← hsame, addModule_addModule_self]
      · rw [t.addModule_comm file m n.2 hsame]
        exact ih _ ((List.mem_cons.mp h).resolve_left hsame)

theorem addModules_eq_self {ms : List (String × ModuleTy)}
    (h : ∀ localName, (t.addModules file ms).imported? file localName ≠ none →
      u.imported? file localName = (t.addModules file ms).imported? file localName) :
    u.addModules file ms = u := by
  induction ms generalizing t with
  | nil => rfl
  | cons m ms ih =>
      have hrest := ih (t := t.addModule file m.1 m.2) h
      show (u.addModule file m.1 m.2).addModules file ms = u
      by_cases hmem : m.1 ∈ ms.map Prod.fst
      · rw [u.addModules_addModule_of_mem file m.2 hmem]
        exact hrest
      · -- no later module takes the name, so this one is still visible under it
        have hvisible : ((t.addModule file m.1 m.2).addModules file ms).imported? file m.1 =
            some (.ofModule m.2) := by
          rw [imported?_addModules_of_not_mem _ file hmem, imported?_addModule_self]
        have hsame : u.imported? file m.1 = some (.ofModule m.2) :=
          (h m.1 fun hnone => Option.some_ne_none _ (hvisible.symm.trans hnone)).trans hvisible
        rw [addModule_eq_self hsame]
        exact hrest

/-!
# Standard packages
-/

theorem imported?_addStandards_eq {name : String} (h : t.imported? file name ≠ none)
    (ps : List (String × String)) :
    (t.addStandards file ps).imported? file name = t.imported? file name := by
  induction ps generalizing t with
  | nil => rfl
  | cons p ps ih =>
      refine (ih (imported?_addStandard h)).trans ?_
      by_cases hname : name = p.2
      · rw [addStandard_eq_self (hname ▸ h)]
      · exact t.imported?_addStandard_of_ne hname

theorem addStandards_eq_self {ps : List (String × String)}
    (h : ∀ p ∈ ps, t.imported? file p.2 ≠ none) : t.addStandards file ps = t := by
  induction ps with
  | nil => rfl
  | cons p ps ih =>
      rcases List.forall_mem_cons.mp h with ⟨hp, hps⟩
      show (t.addStandard file p.1 p.2).addStandards file ps = t
      rw [addStandard_eq_self hp]
      exact ih hps

theorem imported?_addStandards_of_mem (t : SymbolTable) (file : String)
    {ps : List (String × String)} (hps : ∀ p ∈ ps, p ∈ Library.onDemand) :
    ∀ p ∈ ps, (t.addStandards file ps).imported? file p.2 ≠ none := by
  induction ps generalizing t with
  | nil => exact fun p hp => absurd hp List.not_mem_nil
  | cons q ps ih =>
      rcases List.forall_mem_cons.mp hps with ⟨hq, hps⟩
      have hstandard : ∀ p ∈ Library.onDemand, (Library.standard? p.1).isSome := by decide
      rcases Option.isSome_iff_exists.mp (hstandard q hq) with ⟨m, hm⟩
      have hfirst : (t.addStandard file q.1 q.2).imported? file q.2 ≠ none := by
        cases hscope : t.imported? file q.2 with
        | none => simp [addStandard, hscope, hm]
        | some scope =>
            have hthere : t.imported? file q.2 ≠ none := by simp [hscope]
            rw [addStandard_eq_self hthere]
            exact hthere
      exact List.forall_mem_cons.mpr ⟨imported?_addStandards hfirst ps, ih _ hps⟩

theorem addStandards_addStandards_self (t : SymbolTable) (file : String)
    {ps : List (String × String)} (hps : ∀ p ∈ ps, p ∈ Library.onDemand) :
    (t.addStandards file ps).addStandards file ps = t.addStandards file ps :=
  addStandards_eq_self (t.imported?_addStandards_of_mem file hps)

theorem bindAll_addStandards (t : SymbolTable) (space file : String) (bs : List (String × Ty))
    (ps : List (String × String)) :
    (t.addStandards file ps).bindAll space bs = (t.bindAll space bs).addStandards file ps := by
  have hone : ∀ (t : SymbolTable) (p : String × String),
      (t.addStandard file p.1 p.2).bindAll space bs =
        (t.bindAll space bs).addStandard file p.1 p.2 := by
    intro t p
    simp only [← shiftImports_standardShift]
    induction bs generalizing t with
    | nil => rfl
    | cons b bs ih => exact ih (t.bind space b.1 b.2)
  induction ps generalizing t with
  | nil => rfl
  | cons p ps ih =>
      refine (ih (t.addStandard file p.1 p.2)).trans ?_
      rw [hone]
      rfl

end SymbolTable
end StaticTyping
