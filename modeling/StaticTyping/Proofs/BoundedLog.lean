import StaticTyping.Proofs.Log

/-!
# Batches put together from batches

A batch starts out without diagnostics, is given one after another, and is extended by batches that
came about in the same way.  Behind it there is the log of everything that was put into it or into
one of those.  Whatever their limits are, a batch counts all of its log and shows some of it, in
order.  If they all have one limit, it shows the beginning.
-/

namespace StaticTyping
namespace Batch

/-!
# What a batch shows
-/

structure Shows (b : Batch) (log : List Diagnostic) : Prop where
  counts : b.total = log.length
  keeps : b.errors.Sublist log
  fits : b.errors.length ≤ b.limit

namespace Shows

variable {b other : Batch} {log otherLog : List Diagnostic}

theorem start (limit : Nat) : (ofLimit limit).Shows [] where
  counts := rfl
  keeps := .slnil
  fits := Nat.zero_le limit

theorem length_le_total (h : b.Shows log) : b.errors.length ≤ b.total := by
  rw [h.counts]
  exact h.keeps.length_le

theorem push (h : b.Shows log) (d : Diagnostic) : (b.push d).Shows (log ++ [d]) where
  counts := by rw [total_push, h.counts, List.length_append, List.length_singleton]
  keeps := by
    unfold Batch.push
    by_cases room : b.errors.length < b.limit
    · rw [if_pos room]
      exact h.keeps.append_right [d]
    · rw [if_neg room]
      exact h.keeps.trans (List.sublist_append_left log [d])
  fits := length_errors_push_le b d h.fits

theorem foldl_push (h : b.Shows log) (ds : List Diagnostic) :
    (ds.foldl Batch.push b).Shows (log ++ ds) := by
  induction ds generalizing b log with
  | nil =>
      rw [List.append_nil]
      exact h
  | cons d ds ih =>
      have hrest := ih (h.push d)
      rw [List.append_assoc, List.singleton_append] at hrest
      exact hrest

theorem extend (h : b.Shows log) (hother : other.Shows otherLog) :
    (b.extend other).Shows (log ++ otherLog) := by
  have hpushed := h.foldl_push other.errors
  constructor
  · rw [total_extend b other hother.length_le_total, h.counts, hother.counts, List.length_append]
  · exact hpushed.keeps.trans (hother.keeps.append_left log)
  · exact hpushed.fits

end Shows

/-!
# Ways to put a batch together
-/

/-- How a batch comes about: it starts without diagnostics, is given one more, or is extended by a
batch that comes about in one of these ways itself. -/
inductive Assembly where
  | start (limit : Nat)
  | push (a : Assembly) (d : Diagnostic)
  | extend (a other : Assembly)

namespace Assembly

/-- The batch that is put together. -/
def batch : Assembly → Batch
  | .start limit => .ofLimit limit
  | .push a d => a.batch.push d
  | .extend a other => a.batch.extend other.batch

/-- Every diagnostic that was put into the batch, or into one that it was extended by. -/
def log : Assembly → List Diagnostic
  | .start _ => []
  | .push a d => a.log ++ [d]
  | .extend a other => a.log ++ other.log

/-- The limits of all batches that are involved. -/
def limits : Assembly → List Nat
  | .start limit => [limit]
  | .push a _ => a.limits
  | .extend a other => a.limits ++ other.limits

/-- Every batch that there is on the way: those that others are extended by, what each of them is
before it is complete, and the one that is put together in the end. -/
def stages : Assembly → List Batch
  | .start limit => [.ofLimit limit]
  | .push a d => a.stages ++ [a.batch.push d]
  | .extend a other => a.stages ++ other.stages ++ [a.batch.extend other.batch]

theorem batch_shows_log (a : Assembly) : a.batch.Shows a.log := by
  induction a with
  | start limit => exact .start limit
  | push a d ih => exact ih.push d
  | extend a other iha ihother => exact iha.extend ihother

theorem exists_log_of_mem_stages (a : Assembly) :
    ∀ b ∈ a.stages, ∃ log, b.Shows log ∧ log.length ≤ a.log.length := by
  induction a with
  | start limit => exact List.forall_mem_singleton.mpr ⟨[], .start limit, Nat.le_refl _⟩
  | push a d ih =>
      refine List.forall_mem_append.mpr ⟨fun b hb => ?_, List.forall_mem_singleton.mpr ?_⟩
      · rcases ih b hb with ⟨log, hlog, hlength⟩
        exact ⟨log, hlog, Nat.le_trans hlength (List.sublist_append_left a.log [d]).length_le⟩
      · exact ⟨_, batch_shows_log (.push a d), Nat.le_refl _⟩
  | extend a other iha ihother =>
      refine List.forall_mem_append.mpr
        ⟨List.forall_mem_append.mpr ⟨fun b hb => ?_, fun b hb => ?_⟩,
          List.forall_mem_singleton.mpr ?_⟩
      · rcases iha b hb with ⟨log, hlog, hlength⟩
        exact ⟨log, hlog,
          Nat.le_trans hlength (List.sublist_append_left a.log other.log).length_le⟩
      · rcases ihother b hb with ⟨log, hlog, hlength⟩
        exact ⟨log, hlog,
          Nat.le_trans hlength (List.sublist_append_right a.log other.log).length_le⟩
      · exact ⟨_, batch_shows_log (.extend a other), Nat.le_refl _⟩

theorem batch_eq_ofLog {limit : Nat} (a : Assembly) (h : ∀ l ∈ a.limits, l = limit) :
    a.batch = ofLog limit a.log := by
  induction a with
  | start l =>
      rw [h l List.mem_cons_self]
      exact (ofLog_nil limit).symm
  | push a d ih =>
      show a.batch.push d = ofLog limit (a.log ++ [d])
      rw [ih h, push_ofLog]
  | extend a other iha ihother =>
      rcases List.forall_mem_append.mp h with ⟨ha, hother⟩
      show a.batch.extend other.batch = ofLog limit (a.log ++ other.log)
      rw [iha ha, ihother hother, extend_ofLog]

/--
A batch is a bounded view of its log.  It counts the whole log; what it has stored is a part of the
log, in order, and no more than its limit; on the way no batch counts less than it has stored, so
that the number of those dropped is a difference of natural numbers, nor more than the log holds.
If there is one limit, what is stored is exactly the beginning of the log.
-/
theorem bounded_view (a : Assembly) :
    a.batch.total = a.log.length ∧
    a.batch.errors.Sublist a.log ∧
    a.batch.errors.length ≤ a.batch.limit ∧
    (∀ b ∈ a.stages, b.errors.length ≤ b.total ∧ b.total ≤ a.log.length) ∧
    ∀ limit, (∀ l ∈ a.limits, l = limit) →
      a.batch.errors = a.log.take (min limit a.batch.total) := by
  have hshows := a.batch_shows_log
  refine ⟨hshows.counts, hshows.keeps, hshows.fits, ?_, ?_⟩
  · intro b hb
    rcases a.exists_log_of_mem_stages b hb with ⟨log, hlog, hlength⟩
    exact ⟨hlog.length_le_total, hlog.counts ▸ hlength⟩
  · intro limit hlimits
    rw [hshows.counts, ← List.take_eq_take_min, a.batch_eq_ofLog hlimits]
    rfl

end Assembly
end Batch

namespace Sample

def mistake (line : UInt32) : Diagnostic :=
  .ofCode "main.aura" ⟨201⟩ "expected Int, found String" line none

def extended (limit other : Nat) : Batch.Assembly :=
  .push (.extend (.push (.start limit) (mistake 1))
    (.push (.push (.start other) (mistake 2)) (mistake 3))) (mistake 4)

end Sample

theorem Batch.Assembly.bounded_view_extended :
    (∀ l ∈ (Sample.extended 1 1).limits, l = 1) ∧ (Sample.extended 1 1).batch.total = 4 ∧
      (Sample.extended 1 1).batch.errors =
        (Sample.extended 1 1).log.take (min 1 (Sample.extended 1 1).batch.total) := by
  have hlimits : ∀ l ∈ (Sample.extended 1 1).limits, l = 1 := by decide
  rcases bounded_view (Sample.extended 1 1) with ⟨hcounts, _, _, _, hfirst⟩
  exact ⟨hlimits, hcounts, hfirst 1 hlimits⟩

/-- Under different limits a later diagnostic may take the place of one that was dropped. -/
example :
    (Sample.extended 3 1).batch.errors =
        [Sample.mistake 1, Sample.mistake 2, Sample.mistake 4] ∧
      (Sample.extended 3 1).log.take 3 =
        [Sample.mistake 1, Sample.mistake 2, Sample.mistake 3] := by
  decide

end StaticTyping
