import StaticTyping.Proofs.Soundness.Outline

/-!
# Files

Each statement of a file takes part in one phase of the first pass and is finished in the second.
From what the phases have found of the statements of their kinds, and from what the second pass
has made of each statement, the typing of the file is put together.
-/

namespace StaticTyping

open CheckM

variable {D : Discipline} {env : Surroundings}

/-!
# Rows

The phases go through the same statements, so that what they find can be read statement by
statement.  A stage says which context each phase has come to.
-/

abbrev Stage := DeclKind → Context

def DeclKind.ItemStep (D : Discipline) :
    DeclKind → Source.Stmt → Context → Item → Context → Prop
  | .imports | .interfaces | .values => CheckedStep D
  | .classes => ClassStep D
  | .functions => FunctionStep D
  | .other => fun s Γ item Γ' => item = .unchecked s ∧ Γ' = Γ

def Row (D : Discipline) (s : Source.Stmt) (g : Stage) (item : Item) (g' : Stage) : Prop :=
  s.declKind.ItemStep D s (g s.declKind) item (g' s.declKind) ∧ ∀ k ≠ s.declKind, g' k = g k

def Stage.of (Γ₁ Γ₂ Γ₃ Γ₄ Γ₅ : Context) : Stage
  | .imports => Γ₁
  | .interfaces => Γ₂
  | .classes => Γ₃
  | .functions => Γ₄
  | .values => Γ₅
  | .other => default

theorem Chain.rows {ss : List Source.Stmt} {slots₁ slots₂ slots₃ slots₄ slots₅ : List Slot}
    {Γ₁ Γ₂ Γ₃ Γ₄ Γ₅ Γ₁' Γ₂' Γ₃' Γ₄' Γ₅' : Context}
    (h₁ : Chain (PhaseStep Checker.importPhase (CheckedStep D)) (ss.map fun s => ⟨s, none⟩) Γ₁
      slots₁ Γ₁')
    (h₂ : Chain (PhaseStep Checker.interfacePhase (CheckedStep D)) slots₁ Γ₂ slots₂ Γ₂')
    (h₃ : Chain (PhaseStep Checker.classPhase (ClassStep D)) slots₂ Γ₃ slots₃ Γ₃')
    (h₄ : Chain (PhaseStep Checker.functionPhase (FunctionStep D)) slots₃ Γ₄ slots₄ Γ₄')
    (h₅ : Chain (PhaseStep Checker.bindingPhase (CheckedStep D)) slots₄ Γ₅ slots₅ Γ₅') :
    Chain (Row D) ss (.of Γ₁ Γ₂ Γ₃ Γ₄ Γ₅)
      (slots₅.map fun slot => slot.item.getD (.unchecked slot.stmt))
      (.of Γ₁' Γ₂' Γ₃' Γ₄' Γ₅') := by
  induction ss generalizing slots₁ slots₂ slots₃ slots₄ slots₅ Γ₁ Γ₂ Γ₃ Γ₄ Γ₅ with
  | nil =>
      cases h₁
      cases h₂
      cases h₃
      cases h₄
      cases h₅
      exact .nil
  | cons s ss ih =>
      rcases h₁ with _ | ⟨h₁, hs₁⟩
      rcases h₂ with _ | ⟨h₂, hs₂⟩
      rcases h₃ with _ | ⟨h₃, hs₃⟩
      rcases h₄ with _ | ⟨h₄, hs₄⟩
      rcases h₅ with _ | ⟨h₅, hs₅⟩
      refine .cons ?_ (ih hs₁ hs₂ hs₃ hs₄ hs₅)
      rcases s with ⟨kind, span⟩
      -- every phase but that of the statement's kind has left slot and context as they were
      cases kind with
      | importOne package alias? =>
          rcases h₁ with ⟨item, rfl, hstep⟩
          rcases h₂ with ⟨rfl, rfl⟩
          rcases h₃ with ⟨rfl, rfl⟩
          rcases h₄ with ⟨rfl, rfl⟩
          rcases h₅ with ⟨rfl, rfl⟩
          exact ⟨hstep, fun k hk => by cases k with | imports => exact (hk rfl).elim | _ => rfl⟩
      | importMany imports =>
          rcases h₁ with ⟨item, rfl, hstep⟩
          rcases h₂ with ⟨rfl, rfl⟩
          rcases h₃ with ⟨rfl, rfl⟩
          rcases h₄ with ⟨rfl, rfl⟩
          rcases h₅ with ⟨rfl, rfl⟩
          exact ⟨hstep, fun k hk => by cases k with | imports => exact (hk rfl).elim | _ => rfl⟩
      | interfaceDecl d =>
          rcases h₁ with ⟨rfl, rfl⟩
          rcases h₂ with ⟨item, rfl, hstep⟩
          rcases h₃ with ⟨rfl, rfl⟩
          rcases h₄ with ⟨rfl, rfl⟩
          rcases h₅ with ⟨rfl, rfl⟩
          exact ⟨hstep, fun k hk => by cases k with | interfaces => exact (hk rfl).elim | _ => rfl⟩
      | classDecl d =>
          rcases h₁ with ⟨rfl, rfl⟩
          rcases h₂ with ⟨rfl, rfl⟩
          rcases h₃ with ⟨item, rfl, hstep⟩
          rcases h₄ with ⟨rfl, rfl⟩
          rcases h₅ with ⟨rfl, rfl⟩
          exact ⟨hstep, fun k hk => by cases k with | classes => exact (hk rfl).elim | _ => rfl⟩
      | function h body =>
          rcases h₁ with ⟨rfl, rfl⟩
          rcases h₂ with ⟨rfl, rfl⟩
          rcases h₃ with ⟨rfl, rfl⟩
          rcases h₄ with ⟨item, rfl, hstep⟩
          rcases h₅ with ⟨rfl, rfl⟩
          exact ⟨hstep, fun k hk => by cases k with | functions => exact (hk rfl).elim | _ => rfl⟩
      | binding d =>
          rcases h₁ with ⟨rfl, rfl⟩
          rcases h₂ with ⟨rfl, rfl⟩
          rcases h₃ with ⟨rfl, rfl⟩
          rcases h₄ with ⟨rfl, rfl⟩
          rcases h₅ with ⟨item, rfl, hstep⟩
          exact ⟨hstep, fun k hk => by cases k with | values => exact (hk rfl).elim | _ => rfl⟩
      | _ =>
          rcases h₁ with ⟨rfl, rfl⟩
          rcases h₂ with ⟨rfl, rfl⟩
          rcases h₃ with ⟨rfl, rfl⟩
          rcases h₄ with ⟨rfl, rfl⟩
          rcases h₅ with ⟨rfl, rfl⟩
          exact ⟨⟨rfl, rfl⟩, fun k hk => by cases k <;> rfl⟩

theorem Outlined.rows {ss : List Source.Stmt} {items : List Item} {Γ Γ' : Context}
    (h : Outlined D ss Γ items Γ') : ∃ Γ₁ Γ₂ Γ₃ Γ₄, Chain (Row D) ss
      (.of Γ (Γ₁.bindAll (ss.filterMap Checker.forward?)) Γ₂ Γ₃ Γ₄) items
      (.of Γ₁ Γ₂ Γ₃ Γ₄ Γ') := by
  rcases h with ⟨h₁, h₂, h₃, h₄, h₅⟩
  exact ⟨_, _, _, _, Chain.rows h₁ h₂ h₃ h₄ h₅⟩

theorem Chain.exists_of_mem {α β γ : Type} {step : α → γ → β → γ → Prop} {as : List α}
    {bs : List β} {g g' : γ} (h : Chain step as g bs g') {b : β} (hb : b ∈ bs) :
    ∃ a ∈ as, ∃ g g', step a g b g' := by
  induction h with
  | nil => exact absurd hb List.not_mem_nil
  | cons hstep _ ih =>
      rcases List.mem_cons.mp hb with rfl | hb
      · exact ⟨_, List.mem_cons_self, _, _, hstep⟩
      · rcases ih hb with ⟨a, ha, hrest⟩
        exact ⟨a, List.mem_cons_of_mem _ ha, hrest⟩

/-!
# The second pass
-/

def FinishStep (D : Discipline) (item : Item) (Γ : Context) (t : Typed.Stmt) (Γ' : Context) :
    Prop :=
  match item with
  | .function h _ span f => ∃ g : Typed.Function, t = ⟨.function g, span⟩ ∧ g.name = h.name ∧
      g.sig = f ∧ Γ' = Γ.bind g.name.name (.named g.sig) ∧ g.WellTyped D Γ'
  | .classDecl d span c => ∃ fs, t = ⟨.classDecl d.name c fs, span⟩ ∧
      Γ' = Γ.bind d.name.name (.classTy c) ∧ c.Implemented D Γ' fs
  | .checked s => t = s ∧ Γ' = Γ
  | .unchecked s => t.StandsFor s ∧ t.kind.WellTyped D Γ Γ'

theorem Premises.finishItem {c : Source.Condition} (H : Premises D env c) {s : Source.Stmt}
    (h : Source.Met (s.meets c)) {g g' : Stage} {item : Item} (hrow : Row D s g item g')
    (Γ : Context) : (Checker.finishItem item).Ensures D env Γ (FinishStep D item Γ) := by
  have hitem := hrow.1
  have hchecked : ∀ {Δ Δ'}, CheckedStep D s Δ item Δ' →
      (Checker.finishItem item).Ensures D env Γ (FinishStep D item Γ) := by
    rintro Δ Δ' ⟨t, rfl, _⟩
    exact .pure ⟨rfl, rfl⟩
  cases hkind : s.declKind with
  | imports | interfaces | values =>
      rw [hkind] at hitem
      exact hchecked hitem
  | classes =>
      rw [hkind] at hitem
      rcases hitem with ⟨d, span, k, rfl, rfl, hwell, hlength, _, _⟩
      rcases d with ⟨name, visibility, ps, ms, implements⟩
      have hsig : (pure k : CheckM ClassTy).Yields D env Γ fun c => (Ty.classTy c).WellFormed D ∧
          c.methods.length = (Checker.methodBodies ms).length ∧ c = k :=
        .pure ⟨.classTy hwell, hlength, rfl⟩
      refine (Ensures.classDecl name hsig (H.methodBodies ms h.right.right) span).mono ?_
      rintro t Γ' ⟨_, fs, rfl, rfl, hΓ', himplemented⟩
      exact ⟨fs, rfl, hΓ', himplemented⟩
  | functions =>
      rw [hkind] at hitem
      rcases hitem with ⟨d, body, span, f, rfl, rfl, hwell, _⟩
      have hsig : (pure f : CheckM NamedFunction).Yields D env Γ fun f' =>
          (Ty.named f').WellFormed D ∧ f' = f := .pure ⟨.named hwell, rfl⟩
      refine (Ensures.functionDecl d.name hsig (H.blockOf body h.right) span).mono ?_
      rintro t Γ' ⟨g, rfl, hname, hsig, hΓ', hbody⟩
      exact ⟨g, rfl, hname, hsig, hΓ', hbody⟩
  | other =>
      rw [hkind] at hitem
      rcases hitem with ⟨rfl, _⟩
      have hreturns := Checker.stmt_standsFor s (by rw [hkind]; exact fun hk => by cases hk)
      exact ((H.stmt s h Γ).and_returns hreturns).mono fun t Γ' ht => ⟨ht.2, ht.1⟩

theorem Chain.filterMap_id {α β γ : Type} {step : α → γ → β → γ → Prop} {as : List α}
    {os : List (Option β)} {g g' : γ}
    (h : Chain (fun a g o g' => ∃ b, o = some b ∧ step a g b g') as g os g') :
    Chain step as g (os.filterMap id) g' := by
  induction h with
  | nil => exact .nil
  | cons hstep _ ih =>
      rcases hstep with ⟨b, rfl, hb⟩
      exact .cons hb ih

theorem Premises.finish {c : Source.Condition} (H : Premises D env c) {ss : List Source.Stmt}
    (h : ∀ s ∈ ss, Source.Met (s.meets c)) {items : List Item} {g g' : Stage}
    (hrows : Chain (Row D) ss g items g') :
    (Checker.finish items).Quietly D env fun Γ ts Γ' =>
      Chain (FinishStep D) items Γ ts Γ' := by
  have hitems : ∀ item ∈ items, (attempt (Checker.finishItem item)).Quietly D env
      fun Γ o Γ' => ∃ t, o = some t ∧ FinishStep D item Γ t Γ' := by
    intro item hitem
    rcases hrows.exists_of_mem hitem with ⟨s, hs, _, _, hrow⟩
    exact .attempt fun Γ => H.finishItem (h s hs) hrow Γ
  refine ((Quietly.collect hitems).bind fun os => .of_ensures
    (Q := fun Γ ts Γ' => ts = os.filterMap id ∧ Γ' = Γ) fun Γ => .pure ⟨rfl, rfl⟩).mono ?_
  rintro Γ _ _ ⟨os, Γ', hos, rfl, rfl⟩
  exact hos.filterMap_id

/-!
# The typing of a file
-/

def DeclKind.Step (D : Discipline) (Γ : Context) (t : Typed.Stmt) (Γ' : Context) :
    DeclKind → Prop
  | .imports | .interfaces | .values => t.kind.WellTyped D Γ Γ'
  | .classes | .functions => t.kind.Declared D Γ Γ'
  | .other => Γ' = Γ

def DeclKind.All (D : Discipline) (Γ : Context) (ts : List Typed.Stmt) (Γ' : Context) :
    DeclKind → Prop
  | .imports | .interfaces | .values => Typed.Stmt.AllWellTyped D Γ ts Γ'
  | .classes | .functions => Typed.Stmt.AllDeclared D Γ ts Γ'
  | .other => Γ' = Γ

theorem DeclKind.All.nil {k : DeclKind} {Γ : Context} : k.All D Γ [] Γ := by
  cases k with
  | imports | interfaces | values => exact Typed.Stmt.AllWellTyped.nil
  | classes | functions => exact Typed.Stmt.AllDeclared.nil
  | other => rfl

theorem DeclKind.All.cons {k : DeclKind} {Γ Γ' Γ'' : Context} {t : Typed.Stmt}
    {ts : List Typed.Stmt} (h : k.Step D Γ t Γ') (hs : k.All D Γ' ts Γ'') :
    k.All D Γ (t :: ts) Γ'' := by
  cases k with
  | imports | interfaces | values => exact Typed.Stmt.AllWellTyped.cons h hs
  | classes | functions => exact Typed.Stmt.AllDeclared.cons h hs
  | other => exact Eq.trans hs h

theorem Row.finish {s : Source.Stmt} {g g' : Stage} {item : Item} {t : Typed.Stmt}
    {Γ Γ' : Context} (hrow : Row D s g item g') (hfinish : FinishStep D item Γ t Γ') :
    t.declKind = s.declKind ∧ t.forward? = Checker.forward? s ∧
      s.declKind.Step D (g s.declKind) t (g' s.declKind) ∧ t.Finished D Γ Γ' := by
  have hitem := hrow.1
  cases hkind : s.declKind with
  | imports | interfaces | values =>
      -- checked as a whole in the first pass, and passed on as it is
      rw [hkind] at hitem
      rcases hitem with ⟨_, rfl, hstands, htyped⟩
      rcases hfinish with ⟨rfl, rfl⟩
      have hsame := hstands.declKind.trans hkind
      exact ⟨hsame, hstands.forward, htyped, .declared (by simp [hsame])⟩
  | classes =>
      rw [hkind] at hitem
      rcases hitem with ⟨d, span, c, rfl, rfl, hwell, _, hvisibility, hg⟩
      rcases hfinish with ⟨fs, rfl, rfl, himplemented⟩
      refine ⟨rfl, ?_, hg ▸ .classDecl hwell, .classDecl himplemented⟩
      show some (d.name.name, Ty.classTy (.forward d.name.name c.visibility)) = _
      rw [hvisibility]
      rfl
  | functions =>
      rw [hkind] at hitem
      rcases hitem with ⟨d, body, span, f, rfl, rfl, hwell, hg⟩
      rcases hfinish with ⟨f', rfl, hname, rfl, rfl, hbody⟩
      refine ⟨rfl, rfl, ?_, .function hbody⟩
      show Typed.StmtKind.Declared D _ _ _
      rw [hg, ← hname]
      exact .function hwell
  | other =>
      rw [hkind] at hitem
      rcases hitem with ⟨rfl, hg⟩
      rcases hfinish with ⟨hstands, htyped⟩
      exact ⟨hstands.declKind.trans hkind, hstands.forward, hg,
        .other (hstands.declKind.trans hkind) htyped⟩

theorem Chain.finish {ss : List Source.Stmt} {items : List Item} {ts : List Typed.Stmt}
    {g g' : Stage} {Γ Γ' : Context} (hrows : Chain (Row D) ss g items g')
    (hfinish : Chain (FinishStep D) items Γ ts Γ') :
    (∀ k : DeclKind, k.All D (g k) (Typed.Stmt.ofKind k ts) (g' k)) ∧
      Typed.Stmt.AllFinished D Γ ts Γ' ∧
      ts.filterMap Typed.Stmt.forward? = ss.filterMap Checker.forward? := by
  induction hrows generalizing ts Γ with
  | nil =>
      cases hfinish
      exact ⟨fun k => .nil, .nil, rfl⟩
  | @cons s ss item items g g₁ g' hrow _ ih =>
      rcases hfinish with _ | @⟨_, _, t, ts, _, Γ₁, _, ht, hts⟩
      rcases hrow.finish ht with ⟨hdecl, hforward, hstep, hdone⟩
      rcases ih hts with ⟨hall, hfinished, hnames⟩
      refine ⟨fun k => ?_, .cons hdone hfinished, ?_⟩
      · by_cases hk : k = s.declKind
        · subst hk
          rw [show Typed.Stmt.ofKind s.declKind (t :: ts) = t :: Typed.Stmt.ofKind s.declKind ts from
            List.filter_cons_of_pos (by simpa using hdecl)]
          exact .cons hstep (hall _)
        · rw [show Typed.Stmt.ofKind k (t :: ts) = Typed.Stmt.ofKind k ts from
            List.filter_cons_of_neg (by simpa [hdecl] using Ne.symm hk), ← hrow.2 k hk]
          exact hall k
      · rw [List.filterMap_cons, List.filterMap_cons, hforward, hnames]

theorem Outlined.wellTyped {ss : List Source.Stmt} {items : List Item} {ts : List Typed.Stmt}
    {Γ Γ' Γ'' : Context} (houtlined : Outlined D ss Γ items Γ')
    (hfinish : Chain (FinishStep D) items Γ' ts Γ'') (path name : String) :
    Typed.File.WellTyped D Γ ⟨path, name, ts⟩ := by
  rcases houtlined.rows with ⟨Γ₁, Γ₂, Γ₃, Γ₄, hrows⟩
  rcases hrows.finish hfinish with ⟨hall, hfinished, hnames⟩
  rw [← hnames] at hall
  exact .intro (hall .imports) (hall .interfaces) (hall .classes) (hall .functions) (hall .values)
    hfinished

end StaticTyping
