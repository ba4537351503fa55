/-!
# Dictionaries

Finite maps from names, kept as a list of entries in the strict order of the names.  A name that
is inserted again takes the new value.  Because the order is part of the structure, two
dictionaries with the same values for all names are equal.
-/

namespace StaticTyping

/-- Names with their values, in the strict order of the names. -/
structure Dict (α : Type) where
  entries : List (String × α)
  sorted : entries.Pairwise fun a b => a.1 < b.1

namespace Dict

variable {α : Type}

def empty : Dict α :=
  ⟨[], .nil⟩

instance : Inhabited (Dict α) := ⟨empty⟩

def find? (name : String) : List (String × α) → Option α
  | [] => none
  | (other, v) :: rest => if name = other then some v else find? name rest

/-- The value of a name. -/
def get? (d : Dict α) (name : String) : Option α :=
  find? name d.entries

def contains (d : Dict α) (name : String) : Bool :=
  (d.get? name).isSome

def insertEntry (name : String) (value : α) : List (String × α) → List (String × α)
  | [] => [(name, value)]
  | (other, v) :: rest =>
      if name = other then (name, value) :: rest
      else if name < other then (name, value) :: (other, v) :: rest
      else (other, v) :: insertEntry name value rest

theorem mem_insertEntry {name : String} {value : α} {entries : List (String × α)}
    {e : String × α} (h : e ∈ insertEntry name value entries) : e = (name, value) ∨ e ∈ entries := by
  induction entries with
  | nil => simpa [insertEntry] using h
  | cons head rest ih =>
      obtain ⟨other, v⟩ := head
      unfold insertEntry at h
      by_cases hk : name = other
      · rw [if_pos hk] at h
        exact (List.mem_cons.mp h).imp id (List.mem_cons_of_mem _)
      · rw [if_neg hk] at h
        by_cases hlt : name < other
        · rw [if_pos hlt] at h
          exact List.mem_cons.mp h
        · rw [if_neg hlt] at h
          rcases List.mem_cons.mp h with h | h
          · exact Or.inr (h ▸ List.mem_cons_self)
          · exact (ih h).imp id (List.mem_cons_of_mem _)

theorem sorted_insertEntry (name : String) (value : α) {entries : List (String × α)}
    (h : entries.Pairwise fun a b => a.1 < b.1) :
    (insertEntry name value entries).Pairwise fun a b => a.1 < b.1 := by
  induction entries with
  | nil => exact List.pairwise_singleton _ _
  | cons head rest ih =>
      obtain ⟨other, v⟩ := head
      obtain ⟨hhead, hrest⟩ := List.pairwise_cons.mp h
      unfold insertEntry
      by_cases hk : name = other
      · rw [if_pos hk]
        subst hk
        exact List.pairwise_cons.mpr ⟨hhead, hrest⟩
      · rw [if_neg hk]
        by_cases hlt : name < other
        · rw [if_pos hlt]
          refine List.pairwise_cons.mpr ⟨?_, h⟩
          intro e he
          rcases List.mem_cons.mp he with rfl | he
          · exact hlt
          · exact String.lt_trans hlt (hhead e he)
        · rw [if_neg hlt]
          refine List.pairwise_cons.mpr ⟨?_, ih hrest⟩
          intro e he
          rcases mem_insertEntry he with rfl | he
          · have hle : other ≤ name := String.not_lt.mp hlt
            have hne : ¬ name ≤ other := fun hge => hk (String.le_antisymm hge hle)
            exact Decidable.not_not.mp fun hnot => hne (String.not_lt.mp hnot)
          · exact hhead e he

/-- The dictionary with a value for a name. -/
def insert (d : Dict α) (name : String) (value : α) : Dict α :=
  ⟨insertEntry name value d.entries, sorted_insertEntry name value d.sorted⟩

def insertAll (d : Dict α) (pairs : List (String × α)) : Dict α :=
  pairs.foldl (fun d pair => d.insert pair.1 pair.2) d

@[simp] theorem get?_empty (name : String) : (empty : Dict α).get? name = none :=
  rfl

theorem find?_insertEntry (name other : String) (value : α) (entries : List (String × α)) :
    find? other (insertEntry name value entries) =
      if other = name then some value else find? other entries := by
  induction entries with
  | nil => simp [insertEntry, find?]
  | cons e rest ih =>
      obtain ⟨key, v⟩ := e
      by_cases hk : name = key
      · by_cases h : other = name <;> simp_all [insertEntry, find?]
      · by_cases hlt : name < key
        · by_cases h : other = name <;> simp_all [insertEntry, find?]
        · by_cases h : other = name
          · subst h
            simp [insertEntry, find?, hk, hlt, ih]
          · simp [insertEntry, find?, hk, hlt, ih, h]

theorem get?_insert (d : Dict α) (name other : String) (value : α) :
    (d.insert name value).get? other = if other = name then some value else d.get? other :=
  find?_insertEntry name other value d.entries

@[simp] theorem get?_insert_self (d : Dict α) (name : String) (value : α) :
    (d.insert name value).get? name = some value := by
  simp [get?_insert]

theorem get?_insert_of_ne (d : Dict α) {name other : String} (value : α) (h : other ≠ name) :
    (d.insert name value).get? other = d.get? other := by
  simp [get?_insert, h]

theorem find?_eq_none_of_forall_lt {name : String} {entries : List (String × α)}
    (h : ∀ e ∈ entries, name < e.1) : find? name entries = none := by
  induction entries with
  | nil => rfl
  | cons head rest ih =>
      obtain ⟨other, v⟩ := head
      have hne : name ≠ other := by
        intro heq
        have hlt := h (other, v) List.mem_cons_self
        rw [heq] at hlt
        exact String.lt_irrefl other hlt
      rw [find?, if_neg hne]
      exact ih fun e he => h e (List.mem_cons_of_mem _ he)

theorem entries_eq_of_find?_eq {xs ys : List (String × α)}
    (hx : xs.Pairwise fun a b => a.1 < b.1) (hy : ys.Pairwise fun a b => a.1 < b.1)
    (h : ∀ name, find? name xs = find? name ys) : xs = ys := by
  induction xs generalizing ys with
  | nil =>
      cases ys with
      | nil => rfl
      | cons y ys => simpa [find?] using h y.1
  | cons x xs ih =>
      obtain ⟨k, v⟩ := x
      cases ys with
      | nil => simpa [find?] using h k
      | cons y ys =>
          obtain ⟨l, w⟩ := y
          obtain ⟨hxhead, hxrest⟩ := List.pairwise_cons.mp hx
          obtain ⟨hyhead, hyrest⟩ := List.pairwise_cons.mp hy
          -- what is below the head of a sorted list is not in it, and each head is found in both
          have hkl : k = l := by
            apply String.le_antisymm
            · intro hlt
              have hnone : find? l ((k, v) :: xs) = none :=
                find?_eq_none_of_forall_lt fun e he => by
                  rcases List.mem_cons.mp he with rfl | he
                  · exact hlt
                  · exact String.lt_trans hlt (hxhead e he)
              rw [h l] at hnone
              simp [find?] at hnone
            · intro hlt
              have hnone : find? k ((l, w) :: ys) = none :=
                find?_eq_none_of_forall_lt fun e he => by
                  rcases List.mem_cons.mp he with rfl | he
                  · exact hlt
                  · exact String.lt_trans hlt (hyhead e he)
              rw [← h k] at hnone
              simp [find?] at hnone
          subst hkl
          have hvw : v = w := by simpa [find?] using h k
          subst hvw
          have htail : xs = ys := by
            apply ih hxrest hyrest
            intro name
            by_cases hname : name = k
            · subst hname
              rw [find?_eq_none_of_forall_lt hxhead, find?_eq_none_of_forall_lt hyhead]
            · simpa [find?, hname] using h name
          rw [htail]

theorem ext_get? {d e : Dict α} (h : ∀ name, d.get? name = e.get? name) : d = e := by
  obtain ⟨xs, hx⟩ := d
  obtain ⟨ys, hy⟩ := e
  have hentries : xs = ys := entries_eq_of_find?_eq hx hy h
  subst hentries
  rfl

theorem insert_insert_of_ne (d : Dict α) {a b : String} (x y : α) (h : a ≠ b) :
    (d.insert a x).insert b y = (d.insert b y).insert a x := by
  apply ext_get?
  intro name
  simp only [get?_insert]
  by_cases ha : name = a
  · have hb : name ≠ b := fun hb => h (ha.symm.trans hb)
    rw [if_neg hb, if_pos ha, if_pos ha]
  · rw [if_neg ha, if_neg ha]

theorem insert_eq_self {d : Dict α} {name : String} {value : α} (h : d.get? name = some value) :
    d.insert name value = d := by
  apply ext_get?
  intro other
  rw [get?_insert]
  by_cases ho : other = name
  · rw [if_pos ho, ho, h]
  · rw [if_neg ho]

theorem mem_of_find?_eq_some {name : String} {entries : List (String × α)} {v : α}
    (h : find? name entries = some v) : (name, v) ∈ entries := by
  induction entries with
  | nil => cases h
  | cons head rest ih =>
      obtain ⟨other, w⟩ := head
      unfold find? at h
      by_cases hk : name = other
      · rw [if_pos hk] at h
        cases h
        exact hk ▸ List.mem_cons_self
      · rw [if_neg hk] at h
        exact List.mem_cons_of_mem _ (ih h)

theorem mem_of_get?_eq_some {d : Dict α} {name : String} {v : α} (h : d.get? name = some v) :
    (name, v) ∈ d.entries :=
  mem_of_find?_eq_some h

theorem get?_eq_some_of_mem {d : Dict α} {name : String} {v : α}
    (h : (name, v) ∈ d.entries) : d.get? name = some v := by
  obtain ⟨entries, sorted⟩ := d
  show find? name entries = some v
  induction entries with
  | nil => cases h
  | cons head rest ih =>
      obtain ⟨other, w⟩ := head
      obtain ⟨hhead, hrest⟩ := List.pairwise_cons.mp sorted
      unfold find?
      rcases List.mem_cons.mp h with heq | hmem
      · cases heq
        exact if_pos rfl
      · have hlt : other < name := hhead _ hmem
        have hne : name ≠ other := by
          rintro rfl
          exact String.lt_irrefl _ hlt
        rw [if_neg hne]
        exact ih hrest hmem

end Dict
end StaticTyping
