import StaticTyping.Diagnostic.Batch

/-!
# Batches as views of logs

Everything that is ever reported makes up a log.  A batch of a limit shows the beginning of it and
counts the rest.  Batches of one limit can be put together without looking at what they have
dropped: one that has dropped something is full.
-/

namespace StaticTyping
namespace Batch

/-- What a batch shows of a log: the first diagnostics, as many as the limit allows, and the number
of all. -/
def ofLog (limit : Nat) (log : List Diagnostic) : Batch :=
  ⟨log.take limit, log.length, limit⟩

variable (limit : Nat) (log : List Diagnostic)

theorem ofLog_nil : ofLog limit [] = ofLimit limit := by
  unfold ofLog
  rw [List.take_nil]
  rfl

theorem push_ofLog (d : Diagnostic) : (ofLog limit log).push d = ofLog limit (log ++ [d]) := by
  unfold push ofLog
  rw [List.length_append, List.length_take]
  by_cases room : log.length < limit
  · have hroom : min limit log.length < limit := by omega
    have hlength : (log ++ [d]).length ≤ limit := by
      rw [List.length_append]
      exact room
    rw [if_pos hroom, List.take_of_length_le (Nat.le_of_lt room), List.take_of_length_le hlength]
    rfl
  · have hfull : ¬min limit log.length < limit := by omega
    rw [if_neg hfull, List.take_append_of_le_length (Nat.le_of_not_lt room)]
    rfl

theorem foldl_push_ofLog (ds : List Diagnostic) :
    ds.foldl push (ofLog limit log) = ofLog limit (log ++ ds) := by
  induction ds generalizing log with
  | nil => rw [List.append_nil, List.foldl_nil]
  | cons d ds ih =>
      rw [List.foldl_cons, push_ofLog, ih, List.append_assoc]
      rfl

theorem extend_ofLog (other : List Diagnostic) :
    (ofLog limit log).extend (ofLog limit other) = ofLog limit (log ++ other) := by
  have hshown : (log ++ other.take limit).take limit = (log ++ other).take limit := by
    rw [List.take_append, List.take_append, List.take_take,
      Nat.min_eq_left (Nat.sub_le limit log.length)]
  have hcount : (log ++ other.take limit).length + (other.length - (other.take limit).length) =
      (log ++ other).length := by
    rw [List.length_append, List.length_append, List.length_take]
    omega
  unfold extend dropped
  rw [show (ofLog limit other).errors = other.take limit from rfl, foldl_push_ofLog]
  show Batch.mk _ _ limit = Batch.mk _ _ limit
  congr 1

end Batch
end StaticTyping
