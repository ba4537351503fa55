import StaticTyping.Proofs.Order.Passes
import StaticTyping.Proofs.Stillness

/-!
# Names keep their signatures

The first pass binds every declared name to what it records about the declaration, and the second
pass binds the names of functions and classes once more, to the same.  Nothing else is bound in the
scope of a file.  So a name that is declared once stands for its final signature from the end of the
first pass on, however the second pass goes.
-/

namespace StaticTyping

open CheckM

/-!
# What an item records
-/

/-- The name that an item declares, with the signature or type that is recorded in it. -/
def Item.recorded? : Item → Option (String × Ty)
  | .function h _ _ sig => some (h.name.name, .named sig)
  | .classDecl d _ sig => some (d.name.name, .classTy sig)
  | .checked ⟨.interfaceDecl i, _⟩ => some (i.name, .interfaceTy i)
  | .checked ⟨.binding name _ _ ty _, _⟩ => some (name.name, ty)
  | _ => none

def Item.bindings : Item → List (String × Ty)
  | .checked ⟨.interfaceDecl i, _⟩ => interfaceBindings i
  | item => item.recorded?.toList

def Item.rebindings : Item → List (String × Ty)
  | .checked _ | .unchecked _ => []
  | item => item.recorded?.toList

namespace Item

theorem recorded?_eq_head? (item : Item) : item.recorded? = item.bindings.head? := by
  unfold bindings
  split
  · rfl
  · cases item.recorded? <;> rfl

theorem rebindings_eq_recorded? {item : Item} {b : String × Ty} (h : b ∈ item.rebindings) :
    item.recorded? = some b := by
  cases item with
  | function => exact congrArg some (List.mem_singleton.mp h).symm
  | classDecl => exact congrArg some (List.mem_singleton.mp h).symm
  | checked => exact absurd h List.not_mem_nil
  | unchecked => exact absurd h List.not_mem_nil

structure Declares (s : Source.Stmt) (item : Item) : Prop where
  names : item.bindings.map Prod.fst = s.declares
  complete : ∀ s', item ≠ .unchecked s'

theorem Declares.recorded {s : Source.Stmt} {item : Item} (h : item.Declares s) {name : String}
    {names : List String} (hnames : s.declares = name :: names) :
    ∃ ty bs, item.recorded? = some (name, ty) ∧ item.bindings = (name, ty) :: bs ∧
      bs.map Prod.fst = names := by
  have hbound := h.names.trans hnames
  rcases List.map_eq_cons_iff.mp hbound with ⟨⟨_, ty⟩, bs, hbindings, rfl, hbs⟩
  exact ⟨ty, bs, by rw [recorded?_eq_head?, hbindings]; rfl, hbindings, hbs⟩

theorem Declares.mem_of_recorded {s : Source.Stmt} {item : Item} (h : item.Declares s)
    {b : String × Ty} (hb : item.recorded? = some b) : b.1 ∈ s.declares := by
  rw [recorded?_eq_head?] at hb
  rw [← h.names]
  exact List.mem_map_of_mem (List.mem_of_head? hb)

end Item

/-!
# Names bound one after another
-/

namespace Scopes

theorem get?_innermost_bindAll_of_not_mem {name : String} {bs : List (String × Ty)}
    (h : name ∉ bs.map Prod.fst) (s : Scopes) :
    (s.bindAll bs).innermost.get? name = s.innermost.get? name := by
  induction bs generalizing s with
  | nil => rfl
  | cons b bs ih =>
      rw [List.map_cons, List.mem_cons, not_or] at h
      show ((s.bind b.1 b.2).bindAll bs).innermost.get? name = _
      rw [ih h.2, innermost_bind]
      exact Dict.get?_insert_of_ne _ _ h.1

theorem get?_innermost_bindAll_cons {name : String} {ty : Ty} {bs : List (String × Ty)}
    (h : name ∉ bs.map Prod.fst) (s : Scopes) :
    (s.bindAll ((name, ty) :: bs)).innermost.get? name = some ty := by
  show ((s.bind name ty).bindAll bs).innermost.get? name = _
  rw [get?_innermost_bindAll_of_not_mem h, innermost_bind]
  exact Dict.get?_insert_self _ _ _

theorem get?_innermost_bindAll_same {name : String} {ty : Ty} {bs : List (String × Ty)}
    (hbs : ∀ b ∈ bs, b.1 = name → b.2 = ty) {s : Scopes}
    (hbound : s.innermost.get? name = some ty) :
    (s.bindAll bs).innermost.get? name = some ty := by
  induction bs generalizing s with
  | nil => exact hbound
  | cons b bs ih =>
      rcases List.forall_mem_cons.mp hbs with ⟨hfirst, hrest⟩
      apply ih hrest
      rw [innermost_bind]
      by_cases hname : b.1 = name
      · rw [hname, hfirst hname]
        exact Dict.get?_insert_self _ _ _
      · exact (Dict.get?_insert_of_ne _ _ (Ne.symm hname)).trans hbound

end Scopes

section

variable {env : Env}

theorem State.scopes_bind (env : Env) (s : State) (name : String) (ty : Ty) :
    (onSymbols (·.bind env.space name ty) s).scopes env = (s.scopes env).bind name ty :=
  SymbolTable.scopesOf_setScopes_self _ _ _

theorem CheckM.scopes_declareAll (env : Env) (bs : List (String × Ty)) (s : State) :
    (declareAll bs env s).2.scopes env = (s.scopes env).bindAll bs := by
  induction bs generalizing s with
  | nil => rfl
  | cons b bs ih =>
      refine (ih _).trans ?_
      rw [State.scopes_bind]
      rfl

theorem CheckM.inStmt_apply_eq_ok {α : Type} {c : StmtContext} {x : CheckM α} {s t : State} {a : α}
    (h : inStmt c x env s = (.ok a, t)) :
    ∃ t', x env { s with stmts := s.stmts.push c } = (.ok a, t') ∧
      t = { t' with stmts := t'.stmts.pop } := by
  have hvalue : (x env { s with stmts := s.stmts.push c }).1 = .ok a := congrArg Prod.fst h
  exact ⟨_, Prod.ext hvalue rfl, (congrArg Prod.snd h).symm⟩

end

/-!
# Phases
-/

namespace Checker

variable {env : Env}

def Phase.Fills (env : Env) (phase : Phase) : Prop :=
  ∀ stmt x, phase stmt = some x → ∀ item, x.MayGive env item → item.Declares stmt

def Phase.Binds (env : Env) (phase : Phase) : Prop :=
  ∀ stmt x, phase stmt = some x → ∀ s item t, x env s = (.ok item, t) →
    item.Declares stmt ∧ t.scopes env = (s.scopes env).bindAll item.bindings

theorem Phase.Binds.fills {phase : Phase} (h : phase.Binds env) : phase.Fills env := by
  intro stmt x hx item hitem
  rcases hitem with ⟨s, t, hrun⟩
  exact (h stmt x hx s item t hrun).1

theorem importPhase_fills : importPhase.Fills env := by
  intro stmt x hx item hitem
  unfold importPhase at hx
  split at hx
  next =>
    cases hx
    rw [← bind_pure_comp] at hitem
    rcases hitem.of_bind with ⟨t, htarget, _, _, hpure⟩
    rcases htarget.of_bind with ⟨target, _, _, _, htyped⟩
    cases htyped
    cases hpure
    exact ⟨rfl, fun _ => nofun⟩
  next =>
    cases hx
    rw [← bind_pure_comp] at hitem
    rcases hitem.of_bind with ⟨t, htargets, _, _, hpure⟩
    rcases htargets.of_bind with ⟨targets, _, _, _, htyped⟩
    cases htyped
    cases hpure
    exact ⟨rfl, fun _ => nofun⟩
  next => cases hx

theorem names_of_requirements {rs : List Source.Requirement} {fs : List NamedFunction}
    (h : (collect (requirements rs)).MayGive env fs) :
    fs.map NamedFunction.name = rs.map (·.head.name.name) := by
  induction rs generalizing fs with
  | nil =>
      rcases h with ⟨_, _, hpure⟩
      cases hpure
      rfl
  | cons r rs ih =>
      rcases r with ⟨⟨name, visibility, ps, ret⟩, span⟩
      rcases h.of_bind with ⟨f, hf, hrest⟩
      rcases hrest.of_bind with ⟨fs, hfs, _, _, hpure⟩
      rcases hf.of_bind with ⟨sig, _, _, _, hnamed⟩
      cases hpure
      cases hnamed
      exact congrArg (name.name :: ·) (ih hfs)

section

variable (hload : env.load.Releases)
include hload

theorem interfacePhase_binds : interfacePhase.Binds env := by
  intro stmt x hx s item t hrun
  unfold interfacePhase at hx
  split at hx
  next d span =>
    cases hx
    rw [← bind_pure_comp] at hrun
    rcases bind_apply_eq_ok.mp hrun with ⟨_, _, hdecl, hitem⟩
    cases hitem
    rcases bind_apply_eq_ok.mp hdecl with ⟨i, s₁, hi, hrest⟩
    rcases bind_apply_eq_ok.mp hrest with ⟨_, s₂, hbound, htyped⟩
    cases htyped
    have hstill := Stillness.interfaceOf hload d s
    have hscopes := scopes_declareAll env (interfaceBindings i) s₁
    rw [hi] at hstill
    rw [hbound, hstill] at hscopes
    refine ⟨⟨?_, fun _ => nofun⟩, hscopes⟩
    rcases d with ⟨name, visibility, rs⟩
    rcases bind_apply_eq_ok.mp hi with ⟨fs, _, hfs, hsig⟩
    cases hsig
    show name.name :: (fs.map fun f => (f.name, Ty.named f)).map Prod.fst = name.name :: _
    rw [List.map_map]
    exact congrArg (name.name :: ·) (names_of_requirements ⟨s, _, hfs⟩)
  next => cases hx

theorem classPhase_binds : classPhase.Binds env := by
  intro stmt x hx s item t hrun
  unfold classPhase at hx
  split at hx
  next d span =>
    cases hx
    rcases bind_apply_eq_ok.mp hrun with ⟨sig, s₁, hsig, hrest⟩
    rcases bind_apply_eq_ok.mp hrest with ⟨_, s₂, hbound, hitem⟩
    cases hbound
    cases hitem
    have hstill := Stillness.classOf hload d s
    rw [hsig] at hstill
    refine ⟨⟨rfl, fun _ => nofun⟩, ?_⟩
    rw [State.scopes_bind, hstill]
    rfl
  next => cases hx

theorem functionPhase_binds : functionPhase.Binds env := by
  intro stmt x hx s item t hrun
  unfold functionPhase at hx
  split at hx
  next h body span =>
    cases hx
    rcases bind_apply_eq_ok.mp hrun with ⟨sig, s₁, hsig, hrest⟩
    rcases bind_apply_eq_ok.mp hrest with ⟨_, s₂, hbound, hitem⟩
    cases hbound
    cases hitem
    have hstill : (head h span.line env s).2.scopes env = s.scopes env :=
      Stillness.head hload h span.line s
    rw [hsig] at hstill
    refine ⟨⟨rfl, fun _ => nofun⟩, ?_⟩
    rw [State.scopes_bind, hstill]
    rfl
  next => cases hx

theorem bindingPhase_binds : bindingPhase.Binds env := by
  intro stmt x hx s item t hrun
  unfold bindingPhase at hx
  split at hx
  next d span =>
    cases hx
    rw [← bind_pure_comp] at hrun
    rcases bind_apply_eq_ok.mp hrun with ⟨_, _, hdecl, hitem⟩
    cases hitem
    rcases d with ⟨name, isMutable, written, init⟩
    rcases inStmt_apply_eq_ok hdecl with ⟨t', hinside, rfl⟩
    rcases bind_apply_eq_ok.mp hinside with ⟨bound, s₁, hvalue, hrest⟩
    rcases bind_apply_eq_ok.mp hrest with ⟨_, s₂, hbound, htyped⟩
    cases hbound
    cases htyped
    have hstill := Stillness.bindingValue hload ⟨name, isMutable, written, init⟩ span
      { s with stmts := s.stmts.push .binding }
    rw [hvalue] at hstill
    refine ⟨⟨rfl, fun _ => nofun⟩, ?_⟩
    show (onSymbols (·.bind env.space name.name bound.1) s₁).scopes env = _
    rw [State.scopes_bind, hstill]
    rfl
  next => cases hx

end

/-!
# Runs of phases
-/

/-- What is known about a slot after some phases: it declares what its statement does, and it is
filled if it was the turn of its statement. -/
structure Known (done : List Phase) (slot : Slot) : Prop where
  declares : ∀ item, slot.item = some item → item.Declares slot.stmt
  filled : ∀ phase ∈ done, (phase slot.stmt).isSome → slot.item.isSome

section

variable {phase : Phase} {s t : State}

theorem fillSlot_known (hfills : phase.Fills env) {done : List Phase} {slot slot' : Slot}
    (h : Known done slot) (hrun : (fillSlot phase slot).Succeeds env s slot' t) :
    Known (phase :: done) slot' := by
  cases hx : phase slot.stmt with
  | none =>
      rcases (fillSlot_idle hx).mp hrun with ⟨rfl, _⟩
      refine ⟨h.declares, List.forall_mem_cons.mpr ⟨?_, h.filled⟩⟩
      intro hturn
      rw [hx] at hturn
      cases hturn
  | some x =>
      rcases (fillSlot_iff hx).mp hrun with ⟨item, rfl, hitem⟩
      refine ⟨?_, fun _ _ _ => rfl⟩
      intro other hother
      cases hother
      exact hfills _ x hx item ⟨s, t, hitem.value⟩

theorem runPhase_known (hfills : phase.Fills env) (hreporting : phase.Reporting env)
    {done : List Phase} {slots slots' : List Slot} (h : ∀ slot ∈ slots, Known done slot)
    (hrun : (runPhase phase slots).Succeeds env s slots' t) :
    ∀ slot ∈ slots', Known (phase :: done) slot := by
  induction slots generalizing s slots' with
  | nil =>
      rcases Succeeds.pure_iff.mp hrun with ⟨rfl, _⟩
      exact fun _ hslot => absurd hslot List.not_mem_nil
  | cons slot slots ih =>
      obtain ⟨slot', rest', s', rfl, hslot, hrest⟩ :=
        (Succeeds.collect_cons_iff (fillSlot_reporting hreporting)).mp hrun
      rcases List.forall_mem_cons.mp h with ⟨hfirst, hothers⟩
      exact List.forall_mem_cons.mpr ⟨fillSlot_known hfills hfirst hslot, ih hothers hrest⟩

theorem runPhase_get? (hbinds : phase.Binds env) (hreporting : phase.Reporting env)
    {slots slots' : List Slot} {name : String}
    (hname : ∀ slot ∈ slots, (phase slot.stmt).isSome → name ∉ slot.stmt.declares)
    (hrun : (runPhase phase slots).Succeeds env s slots' t) :
    (t.scopes env).innermost.get? name = (s.scopes env).innermost.get? name := by
  induction slots generalizing s slots' with
  | nil =>
      rcases Succeeds.pure_iff.mp hrun with ⟨_, rfl, _⟩
      rfl
  | cons slot slots ih =>
      obtain ⟨slot', rest', s', rfl, hslot, hrest⟩ :=
        (Succeeds.collect_cons_iff (fillSlot_reporting hreporting)).mp hrun
      rcases List.forall_mem_cons.mp hname with ⟨hfirst, hothers⟩
      rw [ih hothers hrest]
      cases hx : phase slot.stmt with
      | none =>
          rcases (fillSlot_idle hx).mp hslot with ⟨_, rfl, _⟩
          rfl
      | some x =>
          rcases (fillSlot_iff hx).mp hslot with ⟨item, _, hitem⟩
          rcases hbinds _ x hx s item s' hitem.value with ⟨hdeclares, hscopes⟩
          rw [hscopes]
          apply Scopes.get?_innermost_bindAll_of_not_mem
          rw [hdeclares.names]
          exact hfirst (by rw [hx]; rfl)

theorem getElem?_middle {α : Type} {l r : List α} {a : α} {n : Nat} (h : l.length = n) :
    (l ++ a :: r)[n]? = some a := by
  subst h
  rw [List.getElem?_append_right (Nat.le_refl _), Nat.sub_self]
  rfl

def Settled (env : Env) (place : Nat) (name : String) (slots : List Slot) (s : State) : Prop :=
  ∃ slot item ty, slots[place]? = some slot ∧ slot.item = some item ∧
    item.recorded? = some (name, ty) ∧ (s.scopes env).innermost.get? name = some ty

theorem runPhase_at (hreporting : phase.Reporting env) {l r slots' : List Slot} {slot : Slot}
    (hrun : (runPhase phase (l ++ slot :: r)).Succeeds env s slots' t) :
    ∃ l' slot' r' s₁ s₂, slots' = l' ++ slot' :: r' ∧ l'.length = l.length ∧
      (runPhase phase l).Succeeds env s l' s₁ ∧ (fillSlot phase slot).Succeeds env s₁ slot' s₂ ∧
      (runPhase phase r).Succeeds env s₂ r' t := by
  have hfill : ∀ slot, (fillSlot phase slot).Reporting env := fillSlot_reporting hreporting
  rcases (Succeeds.collect_append_iff hfill).mp hrun with ⟨l', _, s₁, rfl, hlength, hl, hrest⟩
  rcases (Succeeds.collect_cons_iff hfill).mp hrest with ⟨slot', r', s₂, rfl, hslot, hr⟩
  exact ⟨l', slot', r', s₁, s₂, rfl, hlength, hl, hslot, hr⟩

end

section

variable {phase : Phase} {pre post : List Source.Stmt} {stmt : Source.Stmt} {name : String}
  {slots slots' : List Slot} {s t : State}
  (hslots : slots.map Slot.stmt = pre ++ stmt :: post)
  (helsewhere : ∀ s ∈ pre ++ post, name ∉ s.declares) (hbinds : phase.Binds env)
  (hreporting : phase.Reporting env) (hrun : (runPhase phase slots).Succeeds env s slots' t)
include hslots helsewhere hbinds hreporting hrun

theorem Settled.runPhase (hidle : phase stmt = none) (h : Settled env pre.length name slots s) :
    Settled env pre.length name slots' t := by
  have hother : ∀ slot ∈ slots, (phase slot.stmt).isSome → name ∉ slot.stmt.declares := by
    intro slot hslot hturn
    have hmem : slot.stmt ∈ pre ++ stmt :: post := hslots ▸ List.mem_map_of_mem hslot
    rcases List.mem_append.mp hmem with hmem | hmem
    · exact helsewhere _ (List.mem_append_left _ hmem)
    · rcases List.mem_cons.mp hmem with heq | hmem
      · rw [heq, hidle] at hturn
        cases hturn
      · exact helsewhere _ (List.mem_append_right _ hmem)
  have hkept := runPhase_get? hbinds hreporting hother hrun
  rcases h with ⟨slot, item, ty, hslot, hitem, hrecorded, hbound⟩
  rcases List.map_eq_append_iff.mp hslots with ⟨l, rest, rfl, rfl, hrest⟩
  rcases List.map_eq_cons_iff.mp hrest with ⟨own, r, rfl, hstmt, _⟩
  rw [getElem?_middle (List.length_map _).symm] at hslot
  cases hslot
  obtain ⟨l', slot', r', s₁, s₂, rfl, hlength, _, hfill, _⟩ := runPhase_at hreporting hrun
  rw [← hstmt] at hidle
  rcases (fillSlot_idle hidle).mp hfill with ⟨rfl, _⟩
  exact ⟨slot', item, ty, getElem?_middle (hlength.trans (List.length_map _).symm), hitem,
    hrecorded, hkept.trans hbound⟩

theorem settled_of_runPhase (hturn : (phase stmt).isSome) {names : List String}
    (hnames : stmt.declares = name :: names) (honce : name ∉ names) :
    Settled env pre.length name slots' t := by
  rcases List.map_eq_append_iff.mp hslots with ⟨l, rest, rfl, rfl, hrest⟩
  rcases List.map_eq_cons_iff.mp hrest with ⟨slot, r, rfl, rfl, rfl⟩
  obtain ⟨l', slot', r', s₁, s₂, rfl, hlength, _, hslot, hrest⟩ := runPhase_at hreporting hrun
  rcases Option.isSome_iff_exists.mp hturn with ⟨x, hx⟩
  rcases (fillSlot_iff hx).mp hslot with ⟨item, rfl, hitem⟩
  rcases hbinds _ x hx s₁ item s₂ hitem.value with ⟨hdeclares, hscopes⟩
  rcases hdeclares.recorded hnames with ⟨ty, bs, hrecorded, hbindings, rfl⟩
  have hbound : (s₂.scopes env).innermost.get? name = some ty := by
    rw [hscopes, hbindings]
    exact Scopes.get?_innermost_bindAll_cons honce _
  have hkept := runPhase_get? hbinds hreporting (fun other hmem _ =>
    helsewhere _ (List.mem_append_right _ (List.mem_map_of_mem hmem))) hrest
  exact ⟨_, item, ty, getElem?_middle (hlength.trans (List.length_map _).symm), rfl, hrecorded,
    hkept.trans hbound⟩

end

/-!
# The first pass
-/

theorem declKind_eq_other {stmt : Source.Stmt} (h : ∀ phase ∈ phases, phase stmt = none) :
    stmt.declKind = .other := by
  simp only [phases, List.forall_mem_cons] at h
  obtain ⟨himports, hinterfaces, hclasses, hfunctions, hvalues, _⟩ := h
  rcases stmt with ⟨kind, span⟩
  cases kind with
  | importOne | importMany => cases himports
  | interfaceDecl => cases hinterfaces
  | classDecl => cases hclasses
  | function => cases hfunctions
  | binding => cases hvalues
  | _ => rfl

section

variable (hload : env.load.Releases) {ss : List Source.Stmt} {items : List Item} {s t : State}
  (hrun : (outline ss).Succeeds env s items t)
include hload hrun

theorem outline_settled {pre post : List Source.Stmt} {stmt : Source.Stmt} {name : String}
    {names : List String} (hss : ss = pre ++ stmt :: post)
    (helsewhere : ∀ s ∈ pre ++ post, name ∉ s.declares) (hnames : stmt.declares = name :: names)
    (honce : name ∉ names) :
    ∃ item ty, items[pre.length]? = some item ∧ item.recorded? = some (name, ty) ∧
      (t.scopes env).innermost.get? name = some ty := by
  obtain ⟨slots₁, slots₂, slots₃, slots₄, slots₅, s₁, s₂, s₃, s₄, hruns, rfl⟩ := outline_iff.mp hrun
  rcases hruns with ⟨himports, hinterfaces, hclasses, hfunctions, hvalues⟩
  have hslots₁ : slots₁.map Slot.stmt = pre ++ stmt :: post := by
    rw [runPhase_keeps_stmts (importPhase_reporting env) himports, List.map_map, ← hss]
    exact List.map_id ss
  have hslots₂ := (runPhase_keeps_stmts (interfacePhase_reporting env) hinterfaces).trans hslots₁
  have hslots₃ := (runPhase_keeps_stmts (classPhase_reporting env) hclasses).trans hslots₂
  have hslots₄ := (runPhase_keeps_stmts (functionPhase_reporting env) hfunctions).trans hslots₃
  -- each phase settles the declarations of its own kind and keeps those settled before
  have keptByClasses := fun hidle h => Settled.runPhase hslots₂ helsewhere (classPhase_binds hload)
    (classPhase_reporting env) hclasses hidle h
  have keptByFunctions := fun hidle h => Settled.runPhase hslots₃ helsewhere
    (functionPhase_binds hload) (functionPhase_reporting env) hfunctions hidle h
  have keptByValues := fun hidle h => Settled.runPhase hslots₄ helsewhere
    (bindingPhase_binds hload) (bindingPhase_reporting env) hvalues hidle h
  have hsettled : Settled env pre.length name slots₅ t := by
    rcases stmt with ⟨kind, span⟩
    cases kind with
    | interfaceDecl d =>
        have h := settled_of_runPhase hslots₁ helsewhere (interfacePhase_binds hload)
          (interfacePhase_reporting env) hinterfaces rfl hnames honce
        exact keptByValues rfl (keptByFunctions rfl (keptByClasses rfl h))
    | classDecl d =>
        have h := settled_of_runPhase hslots₂ helsewhere (classPhase_binds hload)
          (classPhase_reporting env) hclasses rfl hnames honce
        exact keptByValues rfl (keptByFunctions rfl h)
    | function head body =>
        have h := settled_of_runPhase hslots₃ helsewhere (functionPhase_binds hload)
          (functionPhase_reporting env) hfunctions rfl hnames honce
        exact keptByValues rfl h
    | binding d =>
        exact settled_of_runPhase hslots₄ helsewhere (bindingPhase_binds hload)
          (bindingPhase_reporting env) hvalues rfl hnames honce
    | _ => cases hnames
  rcases hsettled with ⟨slot, item, ty, hslot, hitem, hrecorded, hbound⟩
  refine ⟨item, ty, ?_, hrecorded, hbound⟩
  rw [List.getElem?_map, hslot]
  show some (slot.item.getD _) = _
  rw [hitem]
  rfl

theorem outline_kept : ∃ slots : List Slot, slots.map Slot.stmt = ss ∧ items = slots.map Slot.kept ∧
    ∀ slot ∈ slots, (∀ s, slot.kept = .unchecked s → s.declKind = .other) ∧
      ∀ b ∈ slot.kept.rebindings, b.1 ∈ slot.stmt.declares := by
  obtain ⟨slots₁, slots₂, slots₃, slots₄, slots₅, s₁, s₂, s₃, s₄, hruns, rfl⟩ := outline_iff.mp hrun
  refine ⟨slots₅, hruns.stmts, rfl, ?_⟩
  have hempty : ∀ slot ∈ ss.map fun s => (⟨s, none⟩ : Slot), Known [] slot := by
    intro slot hslot
    rcases List.mem_map.mp hslot with ⟨s, _, rfl⟩
    exact ⟨fun _ => nofun, fun _ => nofun⟩
  have h₁ := runPhase_known importPhase_fills (importPhase_reporting env) hempty hruns.imports
  have h₂ := runPhase_known (interfacePhase_binds hload).fills (interfacePhase_reporting env) h₁
    hruns.interfaces
  have h₃ := runPhase_known (classPhase_binds hload).fills (classPhase_reporting env) h₂
    hruns.classes
  have h₄ := runPhase_known (functionPhase_binds hload).fills (functionPhase_reporting env) h₃
    hruns.functions
  have h₅ := runPhase_known (bindingPhase_binds hload).fills (bindingPhase_reporting env) h₄
    hruns.values
  intro slot hslot
  have hknown := h₅ slot hslot
  rcases slot with ⟨stmt, item⟩
  cases item with
  | some item =>
      have hdeclares := hknown.declares item rfl
      constructor
      · exact fun s hs => absurd hs (hdeclares.complete s)
      · exact fun b hb => hdeclares.mem_of_recorded (Item.rebindings_eq_recorded? hb)
  | none =>
      refine ⟨?_, fun b hb => absurd hb List.not_mem_nil⟩
      intro s hs
      cases hs
      -- a statement that no phase takes up declares nothing
      apply declKind_eq_other
      intro phase hphase
      apply Option.not_isSome_iff_eq_none.mp
      intro hturn
      cases hknown.filled phase (List.mem_reverse.mpr hphase) hturn

theorem outline_rebindings {pre post : List Source.Stmt} {stmt : Source.Stmt} {name : String}
    {item : Item} {ty : Ty} (hss : ss = pre ++ stmt :: post)
    (helsewhere : ∀ s ∈ pre ++ post, name ∉ s.declares) (hitem : items[pre.length]? = some item)
    (hrecorded : item.recorded? = some (name, ty)) :
    ∀ other ∈ items, (∀ s, other = .unchecked s → s.declKind = .other) ∧
      ∀ b ∈ other.rebindings, b.1 = name → b.2 = ty := by
  obtain ⟨slots, hslots, rfl, hkept⟩ := outline_kept hload hrun
  rw [hss] at hslots
  rcases List.map_eq_append_iff.mp hslots with ⟨l, rest, rfl, rfl, hrest⟩
  rcases List.map_eq_cons_iff.mp hrest with ⟨own, r, rfl, rfl, rfl⟩
  have hown : own.kept = item := by
    rw [List.getElem?_map, getElem?_middle (List.length_map _).symm] at hitem
    exact Option.some.inj hitem
  intro other hother
  rcases List.mem_map.mp hother with ⟨slot, hslot, rfl⟩
  refine ⟨(hkept slot hslot).1, ?_⟩
  intro b hb hname
  have hdeclared := (hkept slot hslot).2 b hb
  rw [hname] at hdeclared
  -- only the item of the declaration itself binds the name again
  have helse : ∀ slot ∈ l ++ r, name ∉ slot.stmt.declares := by
    intro slot hslot
    apply helsewhere
    rw [← List.map_append]
    exact List.mem_map_of_mem hslot
  rcases List.mem_append.mp hslot with hslot | hslot
  · exact (helse slot (List.mem_append_left _ hslot) hdeclared).elim
  · rcases List.mem_cons.mp hslot with rfl | hslot
    · rw [hown] at hb
      have hsame := (Item.rebindings_eq_recorded? hb).symm.trans hrecorded
      cases hsame
      rfl
    · exact (helse slot (List.mem_append_right _ hslot) hdeclared).elim

end

/-!
# The second pass
-/

theorem finishItem_scopes (hload : env.load.Releases) {item : Item}
    (h : ∀ s, item = .unchecked s → s.declKind = .other) (s : State) :
    (finishItem item env s).2.scopes env = (s.scopes env).bindAll item.rebindings := by
  cases item with
  | function head body span sig =>
      have hbody : (do
          let f ← functionOf head.name (blockOf body) span.line sig
          pure (⟨.function f, span⟩ : Typed.Stmt)).Still env :=
        Still.bind (Stillness.functionOf hload head.name body span.line sig) fun _ _ _ => rfl
      refine (hbody (onSymbols (·.bind env.space head.name.name (.named sig)) s)).trans ?_
      rw [State.scopes_bind]
      rfl
  | classDecl d span sig =>
      have hmethods := Stillness.methods hload d sig
      have hinterfaces : (requireInterfaces sig span.line sig.implements).Still env :=
        (Grading.still env).requireInterfaces sig span.line sig.implements
      rcases d with ⟨name, visibility, ps, ms, implements⟩
      have hrest := hmethods.bind fun methods _ => hinterfaces.bind fun _ _ =>
        show (pure ⟨.classDecl name sig methods, span⟩ : CheckM Typed.Stmt).Still env from
          fun _ => rfl
      refine (hrest (onSymbols (·.bind env.space name.name (.classTy sig)) s)).trans ?_
      rw [State.scopes_bind]
      rfl
  | checked typed => rfl
  | unchecked stmt => exact Stillness.stmt hload (h stmt rfl) s

/-- The second pass over some items, whether they go through or not. -/
def finishing (items : List Item) (env : Env) (s : State) : State :=
  (collect (items.map fun item => attempt (finishItem item)) env s).2

theorem finishing_cons (item : Item) (items : List Item) (env : Env) (s : State) :
    finishing (item :: items) env s =
      finishing items env (attempt (finishItem item) env s).2 := by
  show ((attempt (finishItem item) >>= fun o =>
    collect (items.map fun item => attempt (finishItem item)) >>= fun os => pure (o :: os)) env
      s).2 = _
  unfold finishing
  rcases hfirst : attempt (finishItem item) env s with ⟨r, t⟩
  cases r with
  | error e =>
      unfold attempt at hfirst
      split at hfirst
      · cases hfirst
      · cases hfirst
  | ok o =>
      rw [bind_apply_of_ok hfirst]
      rcases hrest : collect (items.map fun item => attempt (finishItem item)) env t with ⟨r, u⟩
      cases r with
      | ok os => rw [bind_apply_of_ok hrest]; rfl
      | error e => rw [bind_apply_of_error hrest]

theorem finishing_get? (hload : env.load.Releases) {items : List Item} {name : String} {ty : Ty}
    (hitems : ∀ item ∈ items, (∀ s, item = .unchecked s → s.declKind = .other) ∧
      ∀ b ∈ item.rebindings, b.1 = name → b.2 = ty)
    {s : State} (h : (s.scopes env).innermost.get? name = some ty) :
    ((finishing items env s).scopes env).innermost.get? name = some ty := by
  induction items generalizing s with
  | nil => exact h
  | cons item items ih =>
      rcases List.forall_mem_cons.mp hitems with ⟨⟨hitem, hsame⟩, hothers⟩
      rw [finishing_cons]
      apply ih hothers
      unfold State.scopes
      rw [attempt_session]
      show (State.scopes env (finishItem item env s).2).innermost.get? name = some ty
      rw [finishItem_scopes hload hitem]
      exact Scopes.get?_innermost_bindAll_same hsame h

theorem finishing_released (hload : env.load.Releases) (items : List Item) (s : State) :
    s.Released (finishing items env s) := by
  have hkeeps : (Frame.release env hload).Keeps
      (collect (items.map fun item => attempt (finishItem item))) := by
    apply Closure.Has.collect
    intro x hx
    rcases List.mem_map.mp hx with ⟨item, _, rfl⟩
    exact Closure.Has.attempt (Closure.attempts _ trivial)
      ((Frame.release env hload).closure.finishItem trivial item)
  exact hkeeps s

end Checker
end StaticTyping
