import StaticTyping.Proofs.Order.Imported
import StaticTyping.Proofs.Retry.Outline

/-!
# Imports that compile nothing

Loading a package compiles nothing if it is a standard one, or is compiled already, or is under
way, or has no files.  The imports of a file then depend on what is compiled and what is under way,
and on nothing else in the session.
-/

namespace StaticTyping

open CheckM

variable {α β : Type} {env : Env} {σ : Session}

/-- Loading a package comes to the same in all sessions with the same packages compiled and under
way, and changes nothing but the paths that were asked for. -/
def Loader.Idle (load : Loader) (σ : Session) (package : String) : Prop :=
  ∃ r rs, (∀ errors, r ≠ .error (.failed errors)) ∧ ∀ υ : Session, υ.compiled = σ.compiled →
    υ.underWay = σ.underWay → load package υ = (r, { υ with requested := rs ++ υ.requested })

def State.importing (env : Env) (ms : List (String × ModuleTy)) (rs : List String)
    (ds : List Diagnostic) (s : State) : State :=
  { s with
    session := { s.session with
      symbols := s.session.symbols.addModules env.file ms
      requested := rs ++ s.session.requested }
    report := ds.foldl Batch.push s.report }

theorem State.importing_importing (env : Env) (ms ms' : List (String × ModuleTy))
    (rs rs' : List String) (ds ds' : List Diagnostic) (s : State) :
    (s.importing env ms rs ds).importing env ms' rs' ds' =
      s.importing env (ms ++ ms') (rs' ++ rs) (ds ++ ds') := by
  unfold State.importing
  dsimp only
  rw [SymbolTable.addModules_append, List.foldl_append, List.append_assoc]

/-- A check that makes modules visible, asks for paths and reports faults, the same in all states
with the same packages compiled and under way. -/
def CheckM.Importing (env : Env) (σ : Session) (x : CheckM α) (P : Except Fault α → Prop) : Prop :=
  ∃ r ms rs ds, P r ∧ ∀ u : State, u.session.compiled = σ.compiled →
    u.session.underWay = σ.underWay → x env u = (r, u.importing env ms rs ds)

namespace CheckM.Importing

variable {P : Except Fault α → Prop} {Q : Except Fault β → Prop}

theorem pure {a : α} (h : P (.ok a)) : (pure a : CheckM α).Importing env σ P :=
  ⟨.ok a, [], [], [], h, fun _ _ _ => rfl⟩

theorem bind {x : CheckM α} {f : α → CheckM β} (hx : x.Importing env σ P)
    (hf : ∀ a, P (.ok a) → (f a).Importing env σ Q) (herror : ∀ e, P (.error e) → Q (.error e)) :
    (x >>= f).Importing env σ Q := by
  rcases hx with ⟨r, ms, rs, ds, hP, hx⟩
  cases r with
  | error e =>
      exact ⟨.error e, ms, rs, ds, herror e hP, fun u hc hw => bind_apply_of_error (hx u hc hw)⟩
  | ok a =>
      rcases hf a hP with ⟨r, ms', rs', ds', hQ, hf⟩
      refine ⟨r, ms ++ ms', rs' ++ rs, ds ++ ds', hQ, fun u hc hw => ?_⟩
      rw [bind_apply_of_ok (hx u hc hw), hf (u.importing env ms rs ds) hc hw,
        State.importing_importing]

theorem attempt {x : CheckM α} (h : x.Importing env σ P) :
    (CheckM.attempt x).Importing env σ fun r => ∃ o, r = .ok o ∧ ∀ a ∈ o, P (.ok a) := by
  rcases h with ⟨r, ms, rs, ds, hP, hx⟩
  cases r with
  | error e =>
      refine ⟨.ok none, ms, rs, ds ++ [e.diagnose env.file],
        ⟨none, rfl, fun a ha => absurd ha (Option.not_mem_none a)⟩, fun u hc hw => ?_⟩
      rw [attempt_apply_of_error (hx u hc hw)]
      unfold State.importing
      rw [List.foldl_append]
      rfl
  | ok a =>
      refine ⟨.ok (some a), ms, rs, ds, ⟨some a, rfl, ?_⟩, fun u hc hw =>
        attempt_apply_of_ok (hx u hc hw)⟩
      rintro b ⟨⟩
      exact hP

theorem collect {xs : List (CheckM α)} (h : ∀ x ∈ xs, x.Importing env σ fun _ => True) :
    (CheckM.collect xs).Importing env σ fun _ => True := by
  induction xs with
  | nil => exact .pure trivial
  | cons x xs ih =>
      rcases List.forall_mem_cons.mp h with ⟨hx, hxs⟩
      exact hx.bind (fun a _ => (ih hxs).bind (fun as _ => .pure trivial) fun _ _ => trivial)
        fun _ _ => trivial

theorem importModule {i : Source.Import} (h : env.load.Idle σ i.package.name) :
    (CheckM.importModule i).Importing env σ fun _ => True := by
  rcases h with ⟨r, rs, hfailed, hload⟩
  have hloaded : (loadPackage i.package.name i.span.line).Importing env σ fun _ => True := by
    cases r with
    | ok m =>
        refine ⟨.ok m, [], rs, [], trivial, fun u hc hw => ?_⟩
        unfold loadPackage
        rw [hload u.session hc hw]
        rfl
    | error e =>
        cases e with
        | cycle =>
            refine ⟨.error ⟨.cyclicImport i.package.name, i.span.line⟩, [], rs, [], trivial,
              fun u hc hw => ?_⟩
            unfold loadPackage
            rw [hload u.session hc hw]
            rfl
        | unavailable reason =>
            refine ⟨.error ⟨.unknownModule i.package.name reason.message, i.span.line⟩, [], rs, [],
              trivial, fun u hc hw => ?_⟩
            unfold loadPackage
            rw [hload u.session hc hw]
            rfl
        | failed errors => exact (hfailed errors rfl).elim
  have hadded : ∀ m : ModuleTy, (CheckM.addModule i.space m).Importing env σ fun _ => True :=
    fun m => ⟨.ok (), [(i.space, m)], [], [], trivial, fun _ _ _ => rfl⟩
  exact hloaded.bind (fun m _ => (hadded m).bind (fun _ _ => .pure trivial) fun _ _ => trivial)
    fun _ _ => trivial

end CheckM.Importing

namespace Checker

theorem importPhase_importing {s : Source.Stmt}
    (h : ∀ i ∈ s.imports, env.load.Idle σ i.package.name) {x : CheckM Item}
    (hx : importPhase s = some x) :
    x.Importing env σ fun r => ∀ item, r = .ok item → item.rebound? = none := by
  have hchecked : ∀ {y : CheckM Typed.Stmt}, (y.Importing env σ fun _ => True) →
      (Item.checked <$> y).Importing env σ fun r => ∀ item, r = .ok item →
        item.rebound? = none := by
    intro y hy
    rw [← bind_pure_comp]
    refine hy.bind (fun t _ => .pure fun item hitem => ?_) fun e _ item hitem => by cases hitem
    cases hitem
    rfl
  rcases s with ⟨kind, span⟩
  cases kind with
  | importOne package alias? =>
      cases hx
      exact hchecked ((Importing.importModule (h _ List.mem_cons_self)).bind
        (fun _ _ => .pure trivial) fun _ _ => trivial)
  | importMany is =>
      cases hx
      refine hchecked (Importing.bind (Importing.collect fun x hx => ?_) (fun _ _ => .pure trivial)
        fun _ _ => trivial)
      rcases List.mem_map.mp hx with ⟨i, hi, rfl⟩
      exact .importModule (h i hi)
  | _ => cases hx

theorem fillSlot_importing {slot : Slot}
    (h : ∀ i ∈ slot.stmt.imports, env.load.Idle σ i.package.name) :
    (fillSlot importPhase slot).Importing env σ fun r =>
      ∃ slot', r = .ok slot' ∧ Fills [slot] [] [slot'] := by
  unfold fillSlot
  cases hphase : importPhase slot.stmt with
  | none => exact .pure ⟨slot, rfl, .refl [slot]⟩
  | some x =>
      refine (Importing.attempt (importPhase_importing h hphase)).bind (fun o ho => ?_)
        fun e he => ?_
      · rcases ho with ⟨_, ⟨⟩, ho⟩
        cases o with
        | none => exact .pure ⟨slot, rfl, .refl [slot]⟩
        | some item =>
            refine .pure ⟨⟨slot.stmt, some item⟩, rfl, .filled
              ⟨fun _ hb => absurd hb List.not_mem_nil, fun name hname => ?_⟩⟩
            rw [ho item rfl item rfl] at hname
            cases hname
      · rcases he with ⟨_, he, _⟩
        cases he

theorem runPhase_importing {slots : List Slot}
    (h : ∀ slot ∈ slots, ∀ i ∈ slot.stmt.imports, env.load.Idle σ i.package.name) :
    (runPhase importPhase slots).Importing env σ fun r =>
      ∃ slots', r = .ok slots' ∧ Fills slots [] slots' := by
  induction slots with
  | nil => exact .pure ⟨[], rfl, .refl []⟩
  | cons slot slots ih =>
      rcases List.forall_mem_cons.mp h with ⟨hslot, hrest⟩
      refine (fillSlot_importing hslot).bind (fun slot' hfill => (ih hrest).bind
        (fun slots' hfills => .pure ⟨slot' :: slots', rfl, ?_⟩) fun e he => ?_) fun e he => ?_
      · rcases hfill with ⟨_, ⟨⟩, hfill⟩
        rcases hfills with ⟨_, ⟨⟩, hfills⟩
        exact hfill.cons hfills
      · rcases he with ⟨_, he, _⟩
        cases he
      · rcases he with ⟨_, he, _⟩
        cases he

end Checker
end StaticTyping
