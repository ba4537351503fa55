import StaticTyping.Proofs.Order.Header
import StaticTyping.Proofs.Order.Known

/-!
# What stays bound

A statement binds the names it declares where it stands and no others.  So the signature that the
first pass binds to the name of a class or a function is still bound to it when the declaration is
checked, if nothing else in the file has that name.
-/

namespace StaticTyping

open CheckM

variable {D : Discipline} {Γ Γ' : Context} {name : String} {ty : Ty}

theorem Context.binds_bind (Γ : Context) (name : String) (ty : Ty) :
    (Γ.bind name ty).Binds name ty := by
  unfold Context.Binds Context.bind
  rw [Scopes.innermost_bind]
  exact Dict.get?_insert_self _ _ _

theorem Context.Binds.bind_of_ne (h : Γ.Binds name ty) {other : String} (hne : name ≠ other)
    (ty' : Ty) : (Γ.bind other ty').Binds name ty := by
  unfold Context.Binds Context.bind
  rw [Scopes.innermost_bind]
  exact (Dict.get?_insert_of_ne _ _ hne).trans h

theorem Typed.StmtKind.WellTyped.eq_of_other {t : Typed.Stmt} (h : t.kind.WellTyped D Γ Γ')
    (hother : t.declKind = .other) : Γ' = Γ := by
  rcases t with ⟨kind, span⟩
  cases h with
  | function | binding | classDecl | interfaceDecl | importOne | importMany => cases hother
  | _ => rfl

theorem Typed.StmtKind.WellTyped.binds_value {t : Typed.Stmt} (h : t.kind.WellTyped D Γ Γ')
    {s : Source.Stmt} (hstands : t.StandsFor s) (hkind : s.declKind = .values)
    (hname : name ∉ s.declares) (hbinds : Γ.Binds name ty) : Γ'.Binds name ty := by
  rcases t with ⟨kind, span⟩
  have hvalue := hstands.declKind.trans hkind
  cases h with
  | binding =>
      rcases s with ⟨kind', span'⟩
      cases kind' with
      | binding d =>
          have hsame := Option.some.inj hstands.bound
          refine hbinds.bind_of_ne ?_ _
          rintro rfl
          exact hname (List.mem_singleton.mpr hsame)
      | _ => cases hkind
  | _ => cases hvalue

theorem Row.binds {s : Source.Stmt} {g g' : Stage} {item : Item} (hrow : Row D s g item g')
    {k : DeclKind} (hk : k = .classes ∨ k = .functions ∨ k = .values)
    (hname : s.declKind = k → name ∉ s.declares) (h : (g k).Binds name ty) :
    (g' k).Binds name ty := by
  by_cases hkind : s.declKind = k
  · have hfree := hname hkind
    have hitem := hrow.1
    rw [hkind] at hitem
    rcases hk with rfl | rfl | rfl
    · rcases hitem with ⟨d, span, c, rfl, _, _, _, _, hg⟩
      rw [hg]
      exact h.bind_of_ne (fun heq => hfree (List.mem_singleton.mpr heq)) _
    · rcases hitem with ⟨head, body, span, f, rfl, _, _, hg⟩
      rw [hg]
      exact h.bind_of_ne (fun heq => hfree (List.mem_singleton.mpr heq)) _
    · rcases hitem with ⟨t, _, hstands, htyped⟩
      exact htyped.binds_value hstands hkind hfree h
  · rw [hrow.2 k (Ne.symm hkind)]
    exact h

theorem Chain.binds {ss : List Source.Stmt} {g g' : Stage} {items : List Item}
    (hrows : Chain (Row D) ss g items g') {k : DeclKind}
    (hk : k = .classes ∨ k = .functions ∨ k = .values)
    (hname : ∀ s ∈ ss, s.declKind = k → name ∉ s.declares) (h : (g k).Binds name ty) :
    (g' k).Binds name ty := by
  induction hrows with
  | nil => exact h
  | cons hrow _ ih =>
      rcases List.forall_mem_cons.mp hname with ⟨hfirst, hrest⟩
      exact ih hrest (hrow.binds hk hfirst h)

theorem Row.binds_finished {s : Source.Stmt} {g g' : Stage} {item : Item} {t : Typed.Stmt}
    (hrow : Row D s g item g') (hfinish : FinishStep D item Γ t Γ') (hname : name ∉ s.declares)
    (h : Γ.Binds name ty) : Γ'.Binds name ty := by
  have hitem := hrow.1
  -- the second pass binds classes and functions again, under the names that they declare
  cases hkind : s.declKind with
  | imports | interfaces | values =>
      rw [hkind] at hitem
      rcases hitem with ⟨_, rfl, _⟩
      rcases hfinish with ⟨_, rfl⟩
      exact h
  | classes =>
      rw [hkind] at hitem
      rcases hitem with ⟨d, span, c, rfl, rfl, _⟩
      rcases hfinish with ⟨fs, _, rfl, _⟩
      exact h.bind_of_ne (fun heq => hname (List.mem_singleton.mpr heq)) _
  | functions =>
      rw [hkind] at hitem
      rcases hitem with ⟨head, body, span, f, rfl, rfl, _⟩
      rcases hfinish with ⟨f', _, hsame, _, rfl, _⟩
      refine h.bind_of_ne (fun heq => hname (List.mem_singleton.mpr ?_)) _
      rw [heq, hsame]
  | other =>
      rw [hkind] at hitem
      rcases hitem with ⟨rfl, _⟩
      rcases hfinish with ⟨hstands, htyped⟩
      rw [htyped.eq_of_other (hstands.declKind.trans hkind)]
      exact h

theorem Chain.binds_finished {ss : List Source.Stmt} {g g' : Stage} {items : List Item}
    {ts : List Typed.Stmt} (hrows : Chain (Row D) ss g items g')
    (hfinish : Chain (FinishStep D) items Γ ts Γ') (hname : ∀ s ∈ ss, name ∉ s.declares)
    (h : Γ.Binds name ty) : Γ'.Binds name ty := by
  induction hrows generalizing ts Γ with
  | nil =>
      cases hfinish
      exact h
  | cons hrow _ ih =>
      rcases List.forall_mem_cons.mp hname with ⟨hfirst, hrest⟩
      rcases hfinish with _ | ⟨ht, hts⟩
      exact ih hts hrest (hrow.binds_finished ht hfirst h)

/-!
# The place of a class or a function
-/

theorem Chain.append_inv {α β γ : Type} {step : α → γ → β → γ → Prop} {as as' : List α}
    {bs : List β} {g g'' : γ} (h : Chain step (as ++ as') g bs g'') :
    ∃ cs cs' g', bs = cs ++ cs' ∧ cs.length = as.length ∧ Chain step as g cs g' ∧
      Chain step as' g' cs' g'' := by
  induction as generalizing g bs with
  | nil => exact ⟨[], bs, g, rfl, rfl, .nil, h⟩
  | cons a as ih =>
      rcases h with _ | ⟨hstep, hrest⟩
      rcases ih hrest with ⟨cs, cs', g', rfl, hlength, hcs, hcs'⟩
      exact ⟨_ :: cs, cs', g', rfl, congrArg (· + 1) hlength, .cons hstep hcs, hcs'⟩

theorem Chain.at_place {α β γ : Type} {step : α → γ → β → γ → Prop} {pre post : List α} {a : α}
    {l r : List β} {b : β} {g g' : γ} (h : Chain step (pre ++ a :: post) g (l ++ b :: r) g')
    (hlength : l.length = pre.length) :
    ∃ g₁ g₂, Chain step pre g l g₁ ∧ step a g₁ b g₂ ∧ Chain step post g₂ r g' := by
  rcases h.append_inv with ⟨l', _, g₁, hsplit, hlength', hpre, hrest⟩
  rcases List.append_inj hsplit (hlength.trans hlength'.symm) with ⟨rfl, hrest'⟩
  rcases hrest with _ | ⟨hstep, hpost⟩
  cases hrest'
  exact ⟨g₁, _, hpre, hstep, hpost⟩

theorem Outlined.row_at {pre post : List Source.Stmt} {s : Source.Stmt} {l r : List Item} {x : Item}
    (h : Outlined D (pre ++ s :: post) Γ (l ++ x :: r) Γ') (hlength : l.length = pre.length) :
    (∃ g g', Chain (Row D) pre g l g') ∧ ∃ g g', Row D s g x g' := by
  rcases h.rows with ⟨_, _, _, _, hrows⟩
  rcases hrows.at_place hlength with ⟨g₁, g₂, hpre, hrow, _⟩
  exact ⟨⟨_, g₁, hpre⟩, g₁, g₂, hrow⟩

theorem Outlined.shift {pre rest : List Source.Stmt} {s : Source.Stmt} {l r : List Item} {x : Item}
    (h : Outlined D (pre ++ s :: rest) Γ (l ++ x :: r) Γ') (hlength : l.length = pre.length) :
    Outlined D ((pre ++ [s]) ++ rest) Γ ((l ++ [x]) ++ r) Γ' ∧
      (l ++ [x]).length = (pre ++ [s]).length := by
  constructor
  · simpa only [List.append_assoc, List.singleton_append] using h
  · simp only [List.length_append, List.length_singleton, hlength]

/-- A class or a function that imports nothing and names no hidden import. -/
structure Source.Stmt.SelfContained (D : Discipline) (hidden : List String) (s : Source.Stmt) :
    Prop where
  kind : s.declKind = .classes ∨ s.declKind = .functions
  closed : Source.Met (s.meets (D.closed hidden))

theorem Outlined.known_at {hidden : List String} {pre post : List Source.Stmt} {s : Source.Stmt}
    {l r : List Item} {x : Item} (h : Outlined D (pre ++ s :: post) Γ (l ++ x :: r) Γ')
    (hlength : l.length = pre.length) (hs : s.SelfContained D hidden)
    (hother : ∀ name ∈ s.declares, ∀ t ∈ pre ++ post, name ∉ t.declares) :
    ∃ name ∈ s.declares, ∃ ty, KnownItem D hidden x name ty ∧ Γ'.Binds name ty := by
  rcases h.rows with ⟨_, _, _, _, hrows⟩
  rcases hrows.at_place hlength with ⟨g₁, g₂, _, hrow, hpost⟩
  have hafter : ∀ name ∈ s.declares, ∀ {k : DeclKind}, ∀ t ∈ post, t.declKind = k →
      name ∉ t.declares :=
    fun name hname _ t ht _ => hother name hname t (List.mem_append_right _ ht)
  have hphase : ∀ name ∈ s.declares, ∀ {k : DeclKind}, s.declKind ≠ k →
      ∀ t ∈ pre ++ s :: post, t.declKind = k → name ∉ t.declares := by
    intro name hname k hk t ht hkind
    rcases List.mem_append.mp ht with ht | ht
    · exact hother name hname t (List.mem_append_left _ ht)
    · rcases List.mem_cons.mp ht with rfl | ht
      · exact (hk hkind).elim
      · exact hother name hname t (List.mem_append_right _ ht)
  -- bound in its own phase, and kept by the rest of that phase and by the phases after it
  have hitem := hrow.1
  rcases hs.kind with hkind | hkind
  · rw [hkind] at hitem
    rcases hitem with ⟨d, span, c, rfl, rfl, _, _, _, hbound⟩
    have hname : d.name.name ∈ Source.Stmt.declares ⟨.classDecl d, span⟩ := List.mem_cons_self
    have hclasses := hpost.binds (.inl rfl) (hafter _ hname) (hbound ▸ Context.binds_bind _ _ _)
    have hfunctions := hrows.binds (.inr (.inl rfl)) (hphase _ hname nofun) hclasses
    exact ⟨_, hname, _, .classDecl hs.closed hrow,
      hrows.binds (.inr (.inr rfl)) (hphase _ hname nofun) hfunctions⟩
  · rw [hkind] at hitem
    rcases hitem with ⟨head, body, span, f, rfl, rfl, _, hbound⟩
    have hname : head.name.name ∈ Source.Stmt.declares ⟨.function head body, span⟩ :=
      List.mem_cons_self
    have hfunctions := hpost.binds (.inr (.inl rfl)) (hafter _ hname)
      (hbound ▸ Context.binds_bind _ _ _)
    exact ⟨_, hname, _, .function hs.closed hrow,
      hrows.binds (.inr (.inr rfl)) (hphase _ hname nofun) hfunctions⟩

end StaticTyping
