import StaticTyping.Diagnostic.Basic

/-!
# Batches of diagnostics

A batch keeps the first diagnostics it is given, up to its limit, and counts all of them.  Adding
one batch to another adds what was kept, in order, and counts what was not.
-/

namespace StaticTyping

/-- Diagnostics in order, with the number of all that were reported. -/
structure Batch where
  errors : List Diagnostic
  total : Nat
  limit : Nat
deriving DecidableEq

namespace Batch

/-- How many diagnostics a batch keeps if nothing else is said. -/
def defaultLimit : Nat :=
  20

def ofLimit (limit : Nat) : Batch :=
  ⟨[], 0, limit⟩

def empty : Batch :=
  ofLimit defaultLimit

instance : Inhabited Batch := ⟨empty⟩

def reported (b : Batch) : Bool :=
  0 < b.total

def push (b : Batch) (d : Diagnostic) : Batch where
  errors := if b.errors.length < b.limit then b.errors ++ [d] else b.errors
  total := b.total + 1
  limit := b.limit

def dropped (b : Batch) : Nat :=
  b.total - b.errors.length

def extend (b other : Batch) : Batch :=
  let pushed := other.errors.foldl push b
  { pushed with total := pushed.total + other.dropped }

def text (b : Batch) : String :=
  "\n\n".intercalate (b.errors.map Diagnostic.text)

@[simp] theorem limit_push (b : Batch) (d : Diagnostic) : (b.push d).limit = b.limit :=
  rfl

@[simp] theorem total_push (b : Batch) (d : Diagnostic) : (b.push d).total = b.total + 1 :=
  rfl

theorem length_errors_push_le (b : Batch) (d : Diagnostic) (h : b.errors.length ≤ b.limit) :
    (b.push d).errors.length ≤ b.limit := by
  unfold push
  by_cases room : b.errors.length < b.limit
  · rw [if_pos room, List.length_append]
    exact room
  · rw [if_neg room]
    exact h

theorem total_foldl_push (b : Batch) (ds : List Diagnostic) :
    (ds.foldl push b).total = b.total + ds.length := by
  induction ds generalizing b with
  | nil => rfl
  | cons d ds ih =>
      rw [List.foldl_cons, ih, total_push, List.length_cons]
      omega

theorem total_extend (b other : Batch) (h : other.errors.length ≤ other.total) :
    (b.extend other).total = b.total + other.total := by
  show (other.errors.foldl push b).total + other.dropped = _
  rw [total_foldl_push, dropped]
  omega

theorem reported_push (b : Batch) (d : Diagnostic) : (b.push d).reported = true := by
  unfold reported
  rw [total_push]
  exact decide_eq_true (Nat.succ_pos _)

theorem reported_extend {b : Batch} (other : Batch) (h : b.reported) :
    (b.extend other).reported = true := by
  have htotal : 0 < b.total := of_decide_eq_true h
  have hle : b.total ≤ (b.extend other).total := by
    show b.total ≤ (other.errors.foldl push b).total + other.dropped
    rw [total_foldl_push]
    omega
  exact decide_eq_true (Nat.lt_of_lt_of_le htotal hle)

end Batch
end StaticTyping
