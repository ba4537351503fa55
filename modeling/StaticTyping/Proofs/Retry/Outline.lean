import StaticTyping.Proofs.Retry.Tables

/-!
# The first pass on top of its own bindings

The first pass binds the names that a file declares.  Classes and interfaces are known by their
names before any signature is read; the other names come later.  If no header mentions these, and
if values and defaults are made of literals by operators, then the pass comes to the same where the
names of the file are bound already.
-/

namespace StaticTyping

open CheckM

variable {α β : Type} {env : Env} {late : List String}

theorem SymbolTable.SameBut.agree {s u : State}
    (h : s.session.symbols.SameBut late env.file u.session.symbols) :
    env.Agree (· ∉ late) s u := by
  refine ⟨fun hname => ?_, h.imported⟩
  unfold Env.find?
  rw [h.lookup _ hname, h.lookup _ hname]

/-!
# Declarations
-/

/-- A check that fails without a trace or binds names, and does the same in all states that differ
in some names at most. -/
def CheckM.Declaring (env : Env) (late : List String) (x : CheckM α)
    (P : List (String × Ty) → α → Prop) : Prop :=
  ∀ s : State,
    (∃ e, ∀ u : State, s.session.symbols.SameBut late env.file u.session.symbols →
      x env u = (.error e, u)) ∨
    ∃ a bs, P bs a ∧ ∀ u : State, s.session.symbols.SameBut late env.file u.session.symbols →
      x env u = (.ok a, onSymbols (·.bindAll env.space bs) u)

namespace CheckM.Declaring

variable {P : List (String × Ty) → α → Prop}

theorem of_reads {header : CheckM β} {bindings : β → List (String × Ty)} {item : β → α}
    (h : header.Reads env (· ∉ late) fun b => P (bindings b) (item b)) :
    (do let b ← header
        declareAll (bindings b)
        pure (item b)).Declaring env late P := by
  intro s
  rcases h s s (.refl s) with ⟨r, hs, _, hr⟩
  have hsame : ∀ u : State, s.session.symbols.SameBut late env.file u.session.symbols →
      header env u = (r, u) := by
    intro u hu
    rcases h s u hu.agree with ⟨r', hs', hu', _⟩
    rw [hs] at hs'
    cases hs'
    exact hu'
  cases r with
  | error e => exact .inl ⟨e, fun u hu => bind_apply_of_error (hsame u hu)⟩
  | ok b =>
      refine .inr ⟨item b, bindings b, hr b rfl, fun u hu => ?_⟩
      rw [bind_apply_of_ok (hsame u hu), bind_apply_of_ok (declareAll_apply _ _ _)]
      rfl

theorem inStmt {x : CheckM α} (c : StmtContext) (h : x.Declaring env late P) :
    (CheckM.inStmt c x).Declaring env late P := by
  have hrun : ∀ {u : State} {r : Except Fault α × State},
      x env { u with stmts := u.stmts.push c } = r →
      CheckM.inStmt c x env u = (r.1, { r.2 with stmts := r.2.stmts.pop }) := by
    rintro u r rfl
    rfl
  intro s
  rcases h s with ⟨e, hx⟩ | ⟨a, bs, hP, hx⟩
  · exact .inl ⟨e, fun u hu => hrun (hx { u with stmts := u.stmts.push c } hu)⟩
  · exact .inr ⟨a, bs, hP, fun u hu => hrun (hx { u with stmts := u.stmts.push c } hu)⟩

theorem map {x : CheckM β} {f : β → α} (h : x.Declaring env late fun bs b => P bs (f b)) :
    (f <$> x).Declaring env late P := by
  rw [← bind_pure_comp]
  intro s
  rcases h s with ⟨e, hx⟩ | ⟨b, bs, hP, hx⟩
  · exact .inl ⟨e, fun u hu => bind_apply_of_error (hx u hu)⟩
  · exact .inr ⟨f b, bs, hP, fun u hu => bind_apply_of_ok (hx u hu)⟩

end CheckM.Declaring

def Item.rebound? : Item → Option String
  | .function h _ _ _ => some h.name.name
  | .classDecl d _ _ => some d.name.name
  | _ => none

structure Source.Stmt.Covers (s : Source.Stmt) (bs : List (String × Ty)) (item : Item) : Prop where
  declared : ∀ b ∈ bs, b.1 ∈ s.declares
  rebound : ∀ name ∈ item.rebound?, name ∈ bs.map Prod.fst

def Source.lateNames (ss : List Source.Stmt) : List String :=
  (ss.flatMap Source.Stmt.declares).filter fun name =>
    !((ss.filterMap Checker.forward?).map Prod.fst).contains name

/--
Whether a statement of a file imports, names the module, is a comment, or declares something: then
with a header that does not mention some names, and with values and defaults that are made of
literals by operators.
-/
def Source.Stmt.tidy (late : List String) (s : Source.Stmt) : Bool :=
  match s.kind with
  | .function h _ => h.meets (.apart late)
  | .binding d => d.meets (.apart late)
  | .classDecl _ | .interfaceDecl _ => s.headMeets (.apart late)
  | .importOne _ _ | .importMany _ | .moduleName _ | .comment _ => true
  | _ => false

theorem CheckM.Reads.bindingValue {d : Source.Binding}
    (h : Source.Met (d.meets (.apart late))) (span : Span) :
    (CheckM.bindingValue d.name d.written (Checker.operandOption d.init) span).Reads env (· ∉ late)
      fun _ => True := by
  rcases d with ⟨name, isMutable, written, init⟩
  have hinit : ∀ o ∈ Checker.operandOption init, Reads.Operand env (· ∉ late) o := by
    cases init with
    | none => exact fun o ho => absurd ho (Option.not_mem_none o)
    | some e =>
        rintro o ⟨⟩
        exact Reads.operand e (Reads.expr e h.right)
  cases written with
  | some ty =>
      refine (Reads.writtenTy h.left span.line).bind fun ty _ => Reads.bind (P := fun _ => True) ?_
        fun value _ => .pure trivial
      cases hvalue : Checker.operandOption init with
      | some o => exact ((hinit o hvalue).confirm ty).mono fun _ _ => trivial
      | none => exact .orFail _ _ _
  | none =>
      cases hvalue : Checker.operandOption init with
      | some o => exact (hinit o hvalue).check.bind fun value _ => .pure trivial
      | none => exact .fail _ _

namespace Checker

def Phase.Declaring (env : Env) (late : List String) (phase : Phase) : Prop :=
  ∀ (s : Source.Stmt) (x : CheckM Item), s.tidy late → phase s = some x →
    x.Declaring env late s.Covers

section

variable (env : Env) (late : List String)

theorem interfacePhase_declaring : interfacePhase.Declaring env late := by
  rintro ⟨kind, span⟩ x h hx
  cases kind with
  | interfaceDecl d =>
      cases hx
      have hreads : (interfaceOf d).Reads env (· ∉ late) fun i =>
          Source.Stmt.Covers ⟨.interfaceDecl d, span⟩ (interfaceBindings i)
            (.checked ⟨.interfaceDecl i, span⟩) :=
        (Reads.interfaceOf h).mono fun i hi =>
          ⟨fun b hb => hi ▸ List.mem_map_of_mem hb, fun _ hname => by cases hname⟩
      rw [← bind_pure_comp, CheckM.interfaceDecl, bind_assoc]
      simp only [bind_assoc, pure_bind]
      exact Declaring.of_reads hreads
  | _ => cases hx

theorem classPhase_declaring : classPhase.Declaring env late := by
  rintro ⟨kind, span⟩ x h hx
  cases kind with
  | classDecl d =>
      cases hx
      have hhead : Source.Met (Source.Stmt.headMeets (.apart late) ⟨.classDecl d, span⟩) := h
      have hreads : (classOf d).Reads env (· ∉ late) fun c =>
          Source.Stmt.Covers ⟨.classDecl d, span⟩ [(d.name.name, .classTy c)]
            (.classDecl d span c) :=
        (Reads.classOf hhead).mono fun c _ => ⟨List.forall_mem_singleton.mpr List.mem_cons_self,
          fun name hname => by cases hname; exact List.mem_cons_self⟩
      exact Declaring.of_reads hreads
  | _ => cases hx

theorem functionPhase_declaring : functionPhase.Declaring env late := by
  rintro ⟨kind, span⟩ x h hx
  cases kind with
  | function d body =>
      cases hx
      have hreads : (head d span.line).Reads env (· ∉ late) fun f =>
          Source.Stmt.Covers ⟨.function d body, span⟩ [(d.name.name, .named f)]
            (.function d body span f) :=
        (Reads.head h span.line).mono fun f _ => ⟨List.forall_mem_singleton.mpr List.mem_cons_self,
          fun name hname => by cases hname; exact List.mem_cons_self⟩
      exact Declaring.of_reads hreads
  | _ => cases hx

theorem bindingPhase_declaring : bindingPhase.Declaring env late := by
  rintro ⟨kind, span⟩ x h hx
  cases kind with
  | binding d =>
      cases hx
      rcases d with ⟨name, isMutable, written, init⟩
      have hreads : (bindingValue name written (operandOption init) span).Reads env (· ∉ late)
          fun bound => Source.Stmt.Covers ⟨.binding ⟨name, isMutable, written, init⟩, span⟩
            [(name.name, bound.1)]
            (.checked ⟨.binding name isMutable written.isSome bound.1 bound.2, span⟩) :=
        (Reads.bindingValue h span).mono fun bound _ =>
          ⟨List.forall_mem_singleton.mpr List.mem_cons_self, fun _ hname => by cases hname⟩
      exact .map (.inStmt .binding (Declaring.of_reads (P := fun bs t =>
        Source.Stmt.Covers ⟨.binding ⟨name, isMutable, written, init⟩, span⟩ bs (.checked t)) hreads))
  | _ => cases hx

end

end Checker

/-!
# Phases
-/

def State.leaving (env : Env) (bs : List (String × Ty)) (ds : List Diagnostic) (s : State) :
    State :=
  { onSymbols (·.bindAll env.space bs) s with report := ds.foldl Batch.push s.report }

theorem State.leaving_leaving (env : Env) (bs bs' : List (String × Ty)) (ds ds' : List Diagnostic)
    (s : State) :
    (s.leaving env bs ds).leaving env bs' ds' = s.leaving env (bs ++ bs') (ds ++ ds') := by
  unfold State.leaving onSymbols
  dsimp only
  rw [SymbolTable.bindAll_append, List.foldl_append]

/-- A check that binds names and reports faults, the same in all states that differ in some names
at most. -/
def CheckM.Leaves (env : Env) (late : List String) (x : CheckM α)
    (P : List (String × Ty) → α → Prop) : Prop :=
  ∀ s : State, ∃ a bs ds, P bs a ∧ ∀ u : State,
    s.session.symbols.SameBut late env.file u.session.symbols →
      x env u = (.ok a, u.leaving env bs ds)

namespace CheckM.Leaves

variable {P : List (String × Ty) → α → Prop}

theorem pure {a : α} (h : P [] a) : (pure a : CheckM α).Leaves env late P :=
  fun _ => ⟨a, [], [], h, fun _ _ => rfl⟩

theorem bind {x : CheckM α} {f : α → CheckM β} {Q : List (String × Ty) → β → Prop}
    {R : List (String × Ty) → α → List (String × Ty) → β → Prop} (hx : x.Leaves env late P)
    (hf : ∀ a bs, P bs a → (f a).Leaves env late (R bs a))
    (hQ : ∀ a bs b bs', P bs a → R bs a bs' b → Q (bs ++ bs') b) :
    (x >>= f).Leaves env late Q := by
  intro s
  rcases hx s with ⟨a, bs, ds, hP, hx⟩
  rcases hf a bs hP (s.leaving env bs ds) with ⟨b, bs', ds', hR, hf⟩
  refine ⟨b, bs ++ bs', ds ++ ds', hQ a bs b bs' hP hR, fun u hu => ?_⟩
  rw [bind_apply_of_ok (hx u hu), hf (u.leaving env bs ds) (hu.bindAll env.space bs),
    State.leaving_leaving]

theorem attempt {x : CheckM α} (h : x.Declaring env late P) :
    (CheckM.attempt x).Leaves env late fun bs o =>
      o = none ∧ bs = [] ∨ ∃ a, o = some a ∧ P bs a := by
  intro s
  rcases h s with ⟨e, hx⟩ | ⟨a, bs, hP, hx⟩
  · exact ⟨none, [], [e.diagnose env.file], .inl ⟨rfl, rfl⟩, fun u hu =>
      attempt_apply_of_error (hx u hu)⟩
  · exact ⟨some a, bs, [], .inr ⟨a, rfl, hP⟩, fun u hu => attempt_apply_of_ok (hx u hu)⟩

end CheckM.Leaves

def Slot.rebinds (slot : Slot) : List String :=
  (slot.item.bind Item.rebound?).toList

/-- What a phase makes of slots: the statements stay, what is bound is declared by them, and it
covers what will be bound again for new items. -/
structure Checker.Fills (slots : List Slot) (bs : List (String × Ty)) (slots' : List Slot) :
    Prop where
  stmts : slots'.map Slot.stmt = slots.map Slot.stmt
  declared : ∀ b ∈ bs, b.1 ∈ (slots.map Slot.stmt).flatMap Source.Stmt.declares
  rebound : ∀ name ∈ slots'.flatMap Slot.rebinds,
    name ∈ slots.flatMap Slot.rebinds ∨ name ∈ bs.map Prod.fst

namespace Checker.Fills

variable {slots slots' slots'' : List Slot} {slot slot' : Slot} {bs bs' : List (String × Ty)}

theorem refl (slots : List Slot) : Fills slots [] slots :=
  ⟨rfl, fun _ hb => absurd hb List.not_mem_nil, fun _ hname => .inl hname⟩

theorem cons (h : Fills [slot] bs [slot']) (hs : Fills slots bs' slots') :
    Fills (slot :: slots) (bs ++ bs') (slot' :: slots') where
  stmts := by
    rw [List.map_cons, List.map_cons, hs.stmts, (List.cons.inj h.stmts).1]
  declared := by
    rw [List.map_cons, List.flatMap_cons]
    refine List.forall_mem_append.mpr ⟨fun b hb => ?_, fun b hb => ?_⟩
    · exact List.mem_append_left _ (by simpa using h.declared b hb)
    · exact List.mem_append_right _ (hs.declared b hb)
  rebound name hname := by
    rw [List.flatMap_cons, List.mem_append] at hname
    rw [List.flatMap_cons, List.mem_append, List.map_append, List.mem_append]
    rcases hname with hname | hname
    · rcases h.rebound name (by simpa using hname) with hname | hname
      · exact .inl (.inl (by simpa using hname))
      · exact .inr (.inl hname)
    · exact (hs.rebound name hname).imp .inr .inr

theorem filled {item : Item} (h : slot.stmt.Covers bs item) :
    Fills [slot] bs [⟨slot.stmt, some item⟩] where
  stmts := rfl
  declared b hb := by simpa using h.declared b hb
  rebound name hname := by
    rw [List.flatMap_singleton] at hname
    exact .inr (h.rebound name (Option.mem_toList.mp hname))

end Checker.Fills

namespace Checker

theorem fillSlot_leaves {phase : Phase} (h : phase.Declaring env late) {slot : Slot}
    (hslot : slot.stmt.tidy late) :
    (fillSlot phase slot).Leaves env late fun bs slot' => Fills [slot] bs [slot'] := by
  unfold fillSlot
  cases hphase : phase slot.stmt with
  | none => exact .pure (.refl [slot])
  | some x =>
      refine Leaves.bind (Leaves.attempt (h slot.stmt x hslot hphase))
        (R := fun _ o bs' slot' => bs' = [] ∧
          slot' = o.elim slot fun item => ⟨slot.stmt, some item⟩) (fun o bs _ => ?_) ?_
      · cases o with
        | some item => exact .pure ⟨rfl, rfl⟩
        | none => exact .pure ⟨rfl, rfl⟩
      · rintro o bs slot' _ ho ⟨rfl, rfl⟩
        rw [List.append_nil]
        rcases ho with ⟨rfl, rfl⟩ | ⟨item, rfl, hcovers⟩
        · exact .refl [slot]
        · exact .filled hcovers

theorem runPhase_leaves {phase : Phase} (h : phase.Declaring env late) {slots : List Slot}
    (hslots : ∀ stmt ∈ slots.map Slot.stmt, stmt.tidy late) :
    (runPhase phase slots).Leaves env late (Fills slots) := by
  induction slots with
  | nil => exact .pure (.refl [])
  | cons slot slots ih =>
      rcases List.forall_mem_cons.mp hslots with ⟨hslot, hrest⟩
      refine Leaves.bind (fillSlot_leaves h hslot) (R := fun _ slot' bs' slots'' =>
        ∃ slots', slots'' = slot' :: slots' ∧ Fills slots bs' slots') (fun slot' bs _ => ?_) ?_
      · refine Leaves.bind (ih hrest) (R := fun _ slots' bs' slots'' =>
          bs' = [] ∧ slots'' = slot' :: slots') (fun slots' bs _ => .pure ⟨rfl, rfl⟩) ?_
        rintro slots' bs _ _ hfills ⟨rfl, rfl⟩
        exact ⟨slots', rfl, (List.append_nil bs).symm ▸ hfills⟩
      · rintro slot' bs _ bs' hfill ⟨slots', rfl, hfills⟩
        exact hfill.cons hfills

/-!
# The first pass
-/

def declareSlots (ss : List Source.Stmt) (slots : List Slot) : CheckM (List Item) := do
  declareAll (ss.filterMap forward?)
  let slots ← runPhase interfacePhase slots
  let slots ← runPhase classPhase slots
  let slots ← runPhase functionPhase slots
  let slots ← runPhase bindingPhase slots
  pure (slots.map fun slot => slot.item.getD (.unchecked slot.stmt))

theorem outline_eq (ss : List Source.Stmt) :
    outline ss = runPhase importPhase (ss.map fun s => ⟨s, none⟩) >>= declareSlots ss :=
  rfl

structure Ends (slots : List Slot) (bs : List (String × Ty)) (items : List Item) : Prop where
  declared : ∀ b ∈ bs, b.1 ∈ (slots.map Slot.stmt).flatMap Source.Stmt.declares
  rebound : ∀ item ∈ items, ∀ name ∈ item.rebound?,
    name ∈ slots.flatMap Slot.rebinds ∨ name ∈ bs.map Prod.fst

theorem Ends.of_slots (slots : List Slot) :
    Ends slots [] (slots.map fun slot => slot.item.getD (.unchecked slot.stmt)) := by
  refine ⟨fun _ hb => absurd hb List.not_mem_nil, fun item hitem name hname => .inl ?_⟩
  rcases List.mem_map.mp hitem with ⟨slot, hslot, rfl⟩
  refine List.mem_flatMap.mpr ⟨slot, hslot, ?_⟩
  unfold Slot.rebinds
  cases hfilled : slot.item with
  | none =>
      rw [hfilled] at hname
      cases hname
  | some item =>
      rw [hfilled] at hname
      exact Option.mem_toList.mpr hname

theorem Fills.ends {slots slots' : List Slot} {bs bs' : List (String × Ty)} {items : List Item}
    (h : Fills slots bs slots') (h' : Ends slots' bs' items) : Ends slots (bs ++ bs') items where
  declared := List.forall_mem_append.mpr ⟨h.declared, h.stmts ▸ h'.declared⟩
  rebound item hitem name hname := by
    rw [List.map_append, List.mem_append]
    rcases h'.rebound item hitem name hname with hname | hname
    · exact (h.rebound name hname).imp_right .inl
    · exact .inr (.inr hname)

theorem runPhase_ends {phase : Phase} (h : phase.Declaring env late) {ss : List Source.Stmt}
    (htidy : ∀ s ∈ ss, s.tidy late) {f : List Slot → CheckM (List Item)}
    (hf : ∀ slots, slots.map Slot.stmt = ss → (f slots).Leaves env late (Ends slots))
    {slots : List Slot} (hslots : slots.map Slot.stmt = ss) :
    (runPhase phase slots >>= f).Leaves env late (Ends slots) := by
  have hphase : (runPhase phase slots).Leaves env late (Fills slots) :=
    runPhase_leaves h fun stmt hstmt => htidy stmt (hslots ▸ hstmt)
  exact hphase.bind (R := fun _ slots' => Ends slots')
    (fun slots' _ hfills => hf slots' (hfills.stmts.trans hslots)) fun _ _ _ _ => Fills.ends

theorem declared_cases {ss : List Source.Stmt} {name : String}
    (h : name ∈ ss.flatMap Source.Stmt.declares) :
    name ∈ (ss.filterMap forward?).map Prod.fst ∨ name ∈ Source.lateNames ss := by
  by_cases hforward : name ∈ (ss.filterMap forward?).map Prod.fst
  · exact .inl hforward
  · exact .inr (List.mem_filter.mpr ⟨h, by simpa using hforward⟩)

theorem forward_declared {ss : List Source.Stmt} :
    ∀ b ∈ ss.filterMap forward?, b.1 ∈ ss.flatMap Source.Stmt.declares := by
  intro b hb
  rcases List.mem_filterMap.mp hb with ⟨s, hs, hforward⟩
  refine List.mem_flatMap.mpr ⟨s, hs, ?_⟩
  rcases s with ⟨kind, span⟩
  cases kind with
  | classDecl d =>
      cases hforward
      exact List.mem_cons_self
  | interfaceDecl d =>
      cases hforward
      exact List.mem_cons_self
  | _ => cases hforward

theorem declareSlots_again (env : Env) {ss : List Source.Stmt}
    (htidy : ∀ s ∈ ss, s.tidy (Source.lateNames ss)) {slots : List Slot}
    (hslots : slots.map Slot.stmt = ss) (hnew : slots.flatMap Slot.rebinds = []) (s : State) :
    ∃ items bs ds, (∀ b ∈ bs, b.1 ∈ ss.flatMap Source.Stmt.declares) ∧
      (∀ item ∈ items, ∀ name ∈ item.rebound?, name ∈ bs.map Prod.fst) ∧
      ∀ cs : List (String × Ty), (∀ c ∈ cs, c.1 ∈ ss.flatMap Source.Stmt.declares) →
        declareSlots ss slots env (onSymbols (·.bindAll env.space cs) s) =
          (.ok items, (onSymbols (·.bindAll env.space cs) s).leaving env bs ds) := by
  have hphases := runPhase_ends (interfacePhase_declaring env _) htidy
    (fun _ => runPhase_ends (classPhase_declaring env _) htidy
      (fun _ => runPhase_ends (functionPhase_declaring env _) htidy
        (fun _ => runPhase_ends (bindingPhase_declaring env _) htidy
          fun slots _ => .pure (.of_slots slots)))) hslots
  -- from the state in which classes and interfaces are known by their names
  rcases hphases (s.leaving env (ss.filterMap forward?) []) with ⟨items, bs, ds, hends, hrun⟩
  refine ⟨items, ss.filterMap forward? ++ bs, ds, ?_, fun item hitem name hname => ?_,
    fun cs hcs => ?_⟩
  · exact List.forall_mem_append.mpr ⟨forward_declared, hslots ▸ hends.declared⟩
  · rcases hends.rebound item hitem name hname with hold | hbound
    · rw [hnew] at hold
      exact absurd hold List.not_mem_nil
    · rw [List.map_append]
      exact List.mem_append_right _ hbound
  · have hsame : (s.session.symbols.bindAll env.space (ss.filterMap forward?)).SameBut
        (Source.lateNames ss) env.file
        ((s.session.symbols.bindAll env.space cs).bindAll env.space (ss.filterMap forward?)) :=
      .rebind _ _ fun c hc => declared_cases (hcs c hc)
    rw [← List.nil_append ds, ← State.leaving_leaving]
    exact (bind_apply_of_ok (declareAll_apply _ _ _)).trans (hrun _ hsame)

end Checker
end StaticTyping
