import StaticTyping.Proofs.Frame
import StaticTyping.Proofs.Pairing.Same

/-!
# What checks ask of a loader

A check gets to know of packages only by asking the loader for them, one after another, each time in
the session that it has come to.  A run is thus a dialogue: what it asks next depends on the answers
so far, and what it comes to on the answers to its own questions only.  In between nothing of the
session changes but the tables.  A question is one that was asked if and only if another answer to
it can make a difference to the run.
-/

namespace StaticTyping

open CheckM Session

variable {α β ρ ω : Type}

abbrev Answer :=
  Except LoadError ModuleTy × Session

inductive Dialogue (ρ : Type) where
  | done (result : ρ)
  | ask (package : String) (σ : Session) (next : Answer → Dialogue ρ)

namespace Dialogue

variable (load : Loader)

def run : Dialogue ρ → ρ
  | .done result => result
  | .ask package σ next => (next (load package σ)).run

def calls : Dialogue ρ → List (String × Session)
  | .done _ => []
  | .ask package σ next => (package, σ) :: (next (load package σ)).calls

def andThen : Dialogue ρ → (ρ → Dialogue ω) → Dialogue ω
  | .done result, f => f result
  | .ask package σ next, f => .ask package σ fun answer => (next answer).andThen f

theorem run_andThen (d : Dialogue ρ) (f : ρ → Dialogue ω) :
    (d.andThen f).run load = (f (d.run load)).run load := by
  induction d with
  | done result => rfl
  | ask package σ next ih => exact ih (load package σ)

variable {load}

theorem run_congr {load' : Loader} {d : Dialogue ρ}
    (h : ∀ call ∈ d.calls load, load' call.1 call.2 = load call.1 call.2) :
    d.run load' = d.run load := by
  induction d with
  | done result => rfl
  | ask package σ next ih =>
      rcases List.forall_mem_cons.mp h with ⟨hfirst, hrest⟩
      rw [run, run, hfirst]
      exact ih _ hrest

/-- Something holds in every question and of the result, if it holds at first and in the answer
before. -/
def Follows (I : Session → Prop) (J : ρ → Prop) : Dialogue ρ → Prop → Prop
  | .done result, first => first → J result
  | .ask _ σ next, first => (first → I σ) ∧ ∀ answer, (next answer).Follows I J (I answer.2)

section Follows

variable {I : Session → Prop} {J : ρ → Prop} {K : ω → Prop} {d : Dialogue ρ} {first : Prop}

theorem Follows.mono (h : d.Follows I J first) {first' : Prop} (hfirst : first' → first) :
    d.Follows I J first' := by
  cases d with
  | done result => exact fun h' => h (hfirst h')
  | ask package σ next => exact ⟨fun h' => h.1 (hfirst h'), h.2⟩

theorem Follows.andThen (h : d.Follows I J first) {f : ρ → Dialogue ω}
    (hf : ∀ r, (f r).Follows I K (J r)) : (d.andThen f).Follows I K first := by
  induction d generalizing first with
  | done result => exact (hf result).mono h
  | ask package σ next ih => exact ⟨h.1, fun answer => ih answer (h.2 answer)⟩

theorem Follows.invariant (h : d.Follows I J first) (hfirst : first)
    (hload : ∀ call ∈ d.calls load, I call.2 → I (load call.1 call.2).2) :
    (∀ call ∈ d.calls load, I call.2) ∧ J (d.run load) := by
  induction d generalizing first with
  | done result => exact ⟨fun call hcall => absurd hcall List.not_mem_nil, h hfirst⟩
  | ask package σ next ih =>
      rcases List.forall_mem_cons.mp hload with ⟨hanswer, hrest⟩
      have hσ := h.1 hfirst
      rcases ih _ (h.2 _) (hanswer hσ) hrest with ⟨hcalls, hresult⟩
      exact ⟨List.forall_mem_cons.mpr ⟨hσ, hcalls⟩, hresult⟩

theorem Follows.of_changed (h : d.Follows I J first) {load' : Loader} {package : String}
    {τ : Session} (hcall : (package, τ) ∈ d.calls load)
    (hload : ∀ q υ, ¬(q = package ∧ υ = τ) → load' q υ = load q υ)
    (hchanged : I (load' package τ).2) (hkept : ∀ q υ, I υ → I (load' q υ).2) :
    J (d.run load') := by
  induction d generalizing first with
  | done result => cases hcall
  | ask q σ next ih =>
      by_cases hsame : q = package ∧ σ = τ
      · rcases hsame with ⟨rfl, rfl⟩
        exact ((h.2 _).invariant hchanged fun call _ => hkept call.1 call.2).2
      · have hrest : (package, τ) ∈ (next (load q σ)).calls load := by
          rcases List.mem_cons.mp hcall with hfirst | hrest
          · cases hfirst
            exact absurd ⟨rfl, rfl⟩ hsame
          · exact hrest
        rw [run, hload q σ hsame]
        exact ih _ (h.2 _) hrest

end Follows
end Dialogue

/-!
# Runs as dialogues
-/

/-- A run from a session is a dialogue, in which only tables change between an answer and the next
question. -/
def Conversing (σ : Session) (left : ρ → Session) (run : Loader → ρ) : Prop :=
  ∃ d : Dialogue ρ, (∀ load, run load = d.run load) ∧
    ∀ I, ApartFromTables I → d.Follows I (fun r => I (left r)) (I σ)

namespace Conversing

variable {σ : Session} {left : ρ → Session} {left' : ω → Session}

theorem done {r : ρ} (t : SymbolTable) (h : left r = { σ with symbols := t }) :
    Conversing σ left fun _ => r := by
  refine ⟨.done r, fun _ => rfl, ?_⟩
  intro I hI hσ
  show I (left r)
  rw [h]
  exact hI σ t hσ

theorem ask (package : String) {next : Answer → ρ}
    (h : ∀ answer, ∃ t, left (next answer) = { answer.2 with symbols := t }) :
    Conversing σ left fun load => next (load package σ) := by
  refine ⟨.ask package σ fun answer => .done (next answer), fun _ => rfl, ?_⟩
  intro I hI
  refine ⟨id, ?_⟩
  intro answer hanswer
  rcases h answer with ⟨t, ht⟩
  show I (left (next answer))
  rw [ht]
  exact hI _ t hanswer

theorem andThen {run : Loader → ρ} (h : Conversing σ left run) {next : Loader → ρ → ω}
    (hnext : ∀ r, Conversing (left r) left' fun load => next load r) :
    Conversing σ left' fun load => next load (run load) := by
  rcases h with ⟨d, hrun, hfollows⟩
  choose f hf hfollows' using hnext
  refine ⟨d.andThen f, ?_, ?_⟩
  · intro load
    show next load (run load) = _
    rw [hrun, d.run_andThen]
    exact hf _ load
  · intro I hI
    exact (hfollows I hI).andThen fun r => hfollows' r I hI

end Conversing

/-!
# Checks
-/

section Checks

variable (settings : Settings) (file space : String)

def CheckM.within (x : CheckM α) (s : State) (load : Loader) : Except Fault α × State :=
  x ⟨settings, file, space, load⟩ s

def State.left (r : Except Fault α × State) : Session :=
  r.2.session

def CheckM.proceed (f : α → CheckM β) (env : Env) :
    Except Fault α × State → Except Fault β × State
  | (.ok a, t) => f a env t
  | (.error e, t) => (.error e, t)

namespace Conversing

variable {settings file space} {x : CheckM α} {s : State}

theorem of_constant {r : Except Fault α × State}
    (h : ∀ load, x.within settings file space s load = r) (t : SymbolTable)
    (hleft : r.2.session = { s.session with symbols := t }) :
    Conversing s.session State.left (x.within settings file space s) := by
  rw [show x.within settings file space s = fun _ => r from funext h]
  exact .done t hleft

theorem map (hx : Conversing s.session State.left (x.within settings file space s))
    (f : Except Fault α × State → Except Fault β × State)
    (hf : ∀ r, (f r).2.session = r.2.session) :
    Conversing s.session State.left fun load => f (x.within settings file space s load) :=
  hx.andThen fun r => .done r.2.session.symbols (hf r)

theorem bind (hx : Conversing s.session State.left (x.within settings file space s))
    {f : α → CheckM β}
    (hf : ∀ a t, Conversing t.session State.left ((f a).within settings file space t)) :
    Conversing s.session State.left ((x >>= f).within settings file space s) := by
  have hnext : ∀ r, Conversing (State.left r) State.left fun load =>
      proceed f ⟨settings, file, space, load⟩ r := by
    intro r
    rcases r with ⟨r, t⟩
    cases r with
    | ok a => exact hf a t
    | error e => exact .done t.session.symbols rfl
  exact hx.andThen hnext

theorem around {enter leave : Env → State → State}
    (henter : ∀ env load s, enter { env with load } s = enter env s)
    (hleave : ∀ env load s, leave { env with load } s = leave env s)
    (hentered : ∀ env s, ∃ t, (enter env s).session = { s.session with symbols := t })
    (hlast : ∀ env s, ∃ t, (leave env s).session = { s.session with symbols := t })
    (hx : ∀ s, Conversing s.session State.left (x.within settings file space s)) :
    Conversing s.session State.left
      ((CheckM.around enter leave x).within settings file space s) := by
  let env : Env := ⟨settings, file, space, .refusing⟩
  rcases hentered env s with ⟨t, ht⟩
  have hbefore : Conversing s.session (fun _ : Unit => (enter env s).session) fun _ => () :=
    .done t ht
  have hafter : ∀ r : Except Fault α × State,
      Conversing (State.left r) State.left fun _ => (r.1, leave env r.2) := by
    intro r
    rcases hlast env r.2 with ⟨t, ht⟩
    exact .done t ht
  have hsame : (CheckM.around enter leave x).within settings file space s = fun load =>
      ((x.within settings file space (enter env s) load).1,
        leave env (x.within settings file space (enter env s) load).2) := by
    funext load
    unfold CheckM.around CheckM.within
    dsimp only
    rw [← henter env load, ← hleave env load]
  rw [hsame]
  exact (hbefore.andThen fun _ => hx (enter env s)).andThen hafter

end Conversing

def Closure.conversing : Closure {} where
  Has x := ∀ s, Conversing s.session State.left (x.within settings file space s)
  imports := True
  one _ := .inl trivial
  many _ := .inl trivial
  ofPure _ s := .done s.session.symbols rfl
  ofFail _ _ s := .done s.session.symbols rfl
  ofView f hf s := by
    have hview : ∀ load, (CheckM.view f).within settings file space s load =
        (.ok (f ⟨settings, file, space, .refusing⟩ s), s) :=
      fun load =>
        congrArg (fun a => (Except.ok a, s)) (hf ⟨settings, file, space, .refusing⟩ load s)
    exact .of_constant hview s.session.symbols rfl
  ofBind hx hf s := (hx s).bind hf
  ofMapCause {α x} f hx s := by
    let changed : Except Fault α × State → Except Fault α × State
      | (.error e, t) => (.error ⟨f e.cause, e.line⟩, t)
      | r => r
    exact (hx s).map changed fun r => by rcases r with ⟨_ | _, _⟩ <;> rfl
  declare name ty s := by
    have hdeclare : ∀ load, (CheckM.declare name ty).within settings file space s load =
        (.ok (), onSymbols (·.bind space name ty) s) := fun _ => rfl
    exact .of_constant hdeclare _ rfl
  standard {_ package localName} _ s := by
    have hstandard : ∀ load, (importStandard package localName).within settings file space s load =
        (.ok (), onSymbols (·.addStandard file package localName) s) :=
      fun load => importStandard_apply _ _ _ _
    exact .of_constant hstandard _ rfl
  importModule _ i s := by
    let answered (answer : Answer) : Except Fault Typed.Import × State :=
      (CheckM.importModule i).within settings file space s fun _ _ => answer
    have hleft : ∀ answer, ∃ t, (answered answer).2.session = { answer.2 with symbols := t } := by
      intro answer
      apply session_importModule (P := fun σ => ∃ t, σ = { answer.2 with symbols := t })
      · exact ⟨answer.2.symbols, rfl⟩
      · rintro m τ _ ⟨t, rfl⟩
        exact ⟨_, rfl⟩
    have hask : Conversing s.session State.left fun load =>
        answered (load i.package.name s.session) := .ask i.package.name hleft
    exact hask
  ofInScope hx s := by
    unfold CheckM.inScope
    exact .around (fun _ _ _ => rfl) (fun _ _ _ => rfl) (fun _ _ => ⟨_, rfl⟩)
      (fun _ _ => ⟨_, rfl⟩) hx
  ofInStmt construct hx s := by
    unfold CheckM.inStmt
    exact .around (fun _ _ _ => rfl) (fun _ _ _ => rfl) (fun _ s => ⟨s.session.symbols, rfl⟩)
      (fun _ s => ⟨s.session.symbols, rfl⟩) hx
  ofInExpr construct hx s := by
    unfold CheckM.inExpr
    exact .around (fun _ _ _ => rfl) (fun _ _ _ => rfl) (fun _ s => ⟨s.session.symbols, rfl⟩)
      (fun _ s => ⟨s.session.symbols, rfl⟩) hx
  ofInClass construct hx s := by
    unfold CheckM.inClass
    exact .around (fun _ _ _ => rfl) (fun _ _ _ => rfl) (fun _ s => ⟨s.session.symbols, rfl⟩)
      (fun _ s => ⟨s.session.symbols, rfl⟩) hx
  attempts _ {α x} hx s := by
    let tried : Except Fault α × State → Except Fault (Option α) × State
      | (.ok a, t) => (.ok (some a), t)
      | (.error e, t) => (.ok none, { t with report := t.report.push (e.diagnose file) })
    exact (hx s).map tried fun r => by rcases r with ⟨_ | _, _⟩ <;> rfl

end Checks

/-!
# Files
-/

namespace Checker

/-- What a pass makes of the outcome of its check. -/
def settle (env : Env) : Except Fault α × State → Except Batch α × State
  | (.ok a, t) => if t.report.reported then takeReport env t else (.ok a, t)
  | (.error e, t) => takeReport env { t with report := t.report.push (e.diagnose env.file) }

/-- What a file comes to once it is outlined. -/
def complete (name : String) (env : Env) :
    Except Batch (List Item) × State → Except Batch Typed.File × Session
  | (.error errors, s) => (.error errors, s.session)
  | (.ok items, s) => conclude env.file name (pass (finish items) env s)

theorem pass_conversing {settings : Settings} {file space : String} {x : CheckM α} {s : State}
    (hx : Conversing s.session State.left (x.within settings file space s)) :
    Conversing s.session (fun r : Except Batch α × State => r.2.session)
      fun load => pass x ⟨settings, file, space, load⟩ s := by
  -- the loader of the environment is not used here
  let env : Env := ⟨settings, file, space, .refusing⟩
  have hended : ∀ r, Conversing (State.left r)
      (fun r : Except Batch α × State => r.2.session) fun _ => settle env r := by
    intro r
    rcases r with ⟨r, t⟩
    cases r with
    | error e => exact .done t.session.symbols rfl
    | ok a =>
        dsimp only [settle]
        split
        · exact .done t.session.symbols rfl
        · exact .done t.session.symbols rfl
  have hpass : (fun load => pass x ⟨settings, file, space, load⟩ s) = fun load =>
      settle env (x.within settings file space s load) := by
    funext load
    unfold pass CheckM.attempt CheckM.within
    rcases x ⟨settings, file, space, load⟩ s with ⟨r, t⟩
    cases r <;> rfl
  rw [hpass]
  exact hx.andThen hended

theorem runFile_conversing (settings : Settings) (file : Source.File) (σ : Session) :
    Conversing σ Prod.snd fun load => runFile settings load file σ := by
  cases hname : moduleName? file.stmts with
  | none =>
      have hunnamed : (fun load => runFile settings load file σ) = fun _ =>
          (.error (unnamed settings file), σ) := by
        funext load
        unfold runFile envOf
        rw [hname]
        rfl
      rw [hunnamed]
      exact .done σ.symbols rfl
  | some name =>
      let C := Closure.conversing settings file.path (spaceOf σ name)
      have hfinished : ∀ r, Conversing (r.2.session) Prod.snd fun _ =>
          conclude file.path name r := by
        intro r
        rcases r with ⟨r, s⟩
        cases r <;> exact .done s.session.symbols rfl
      have houtlined : ∀ r, Conversing (r.2.session) Prod.snd fun load =>
          complete name ⟨settings, file.path, spaceOf σ name, load⟩ r := by
        intro r
        rcases r with ⟨r, s⟩
        cases r with
        | error errors => exact .done s.session.symbols rfl
        | ok items => exact (pass_conversing (C.finish trivial items s)).andThen hfinished
      have hrun : (fun load => runFile settings load file σ) = fun load =>
          complete name ⟨settings, file.path, spaceOf σ name, load⟩
            (pass (outline file.stmts) ⟨settings, file.path, spaceOf σ name, load⟩
              (initial settings σ)) := by
        funext load
        unfold runFile envOf
        rw [hname]
        rfl
      rw [hrun]
      exact (pass_conversing (C.outline trivial file.stmts (initial settings σ))).andThen houtlined

end Checker

/-!
# Questions that are asked
-/

def Asked (run : Loader → ρ) (load : Loader) (package : String) (τ : Session) : Prop :=
  ∃ other : Loader, (∀ q υ, ¬(q = package ∧ υ = τ) → other q υ = load q υ) ∧ run other ≠ run load

def Loader.Counts (load : Loader) : Prop :=
  ∀ package σ, σ.requested.length ≤ (load package σ).2.requested.length

namespace Dialogue

variable {d : Dialogue ρ} {load : Loader} {package : String} {σ τ : Session}

theorem mem_calls_of_asked (h : Asked (fun load => d.run load) load package τ) :
    (package, τ) ∈ d.calls load := by
  rcases h with ⟨other, hother, hdiffers⟩
  by_contra hnot
  apply hdiffers
  apply run_congr
  intro call hcall
  apply hother
  rintro ⟨rfl, rfl⟩
  exact hnot hcall

theorem asked_of_mem_calls {left : ρ → Session} (hcounts : load.Counts)
    (hfollows : ∀ I, ApartFromTables I → d.Follows I (fun r => I (left r)) (I σ))
    (hcall : (package, τ) ∈ d.calls load) : Asked (fun load => d.run load) load package τ := by
  classical
  -- an answer by which more paths have been asked for than in the end there are
  let count := (left (d.run load)).requested.length
  let answer : Answer := (.error .cycle, { τ with requested := List.replicate (count + 1) "" })
  have hanswer : count < answer.2.requested.length := by simp [answer]
  let other : Loader := fun q υ => if q = package ∧ υ = τ then answer else load q υ
  have hother : ∀ q υ, ¬(q = package ∧ υ = τ) → other q υ = load q υ := fun q υ h => if_neg h
  have hchanged : other package τ = answer := if_pos ⟨rfl, rfl⟩
  refine ⟨other, hother, ?_⟩
  intro hsame
  have hmore : count < (left (d.run other)).requested.length := by
    apply (hfollows (fun υ => count < υ.requested.length) fun _ _ h => h).of_changed hcall hother
    · rw [hchanged]
      exact hanswer
    · intro q υ hυ
      by_cases hquestion : q = package ∧ υ = τ
      · rcases hquestion with ⟨rfl, rfl⟩
        rw [hchanged]
        exact hanswer
      · rw [hother q υ hquestion]
        exact Nat.lt_of_lt_of_le hυ (hcounts q υ)
  rw [show d.run other = d.run load from hsame] at hmore
  exact Nat.lt_irrefl _ hmore

end Dialogue

theorem Conversing.invariant {σ : Session} {left : ρ → Session} {run : Loader → ρ} {load : Loader}
    (h : Conversing σ left run) (hcounts : load.Counts) {I : Session → Prop}
    (hI : ApartFromTables I) (hσ : I σ)
    (hload : ∀ package τ, Asked run load package τ → I τ → I (load package τ).2) :
    (∀ package τ, Asked run load package τ → I τ) ∧ I (left (run load)) := by
  rcases h with ⟨d, hrun, hfollows⟩
  cases show run = fun load => d.run load from funext hrun
  have hkept := (hfollows I hI).invariant hσ fun call hcall =>
    hload call.1 call.2 (Dialogue.asked_of_mem_calls hcounts hfollows hcall)
  exact ⟨fun package τ h => hkept.1 _ (Dialogue.mem_calls_of_asked h), hkept.2⟩
end StaticTyping
