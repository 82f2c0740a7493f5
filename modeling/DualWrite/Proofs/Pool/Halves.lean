import DualWrite.Proofs.Pool.Service
import DualWrite.Proofs.Store.Transactions

/-!
# Halves of a transaction

What a deed and an ending of a caller do on one store: to what is committed there and to the
transaction that is open there.
-/
namespace DualWrite.Pool
open Store
variable (s : Store)

section Deeds
variable (who : Option Ticket) (deed : Deed)

theorem onStore_course : Course s who (deed.onStore s who).2.isOk (deed.onStore s who).1 := by
  cases deed with
  | exec st args => exact (isOk_map (s.exec who st args).2 _).symm ▸ exec_course s who st args
  | query st args => exact (isOk_map (s.query who st args).2 _).symm ▸ query_course s who st args
  | queryRow st args =>
    exact (isOk_map (s.query who st args).2 _).symm ▸ query_course s who st args

theorem follow_course : ∃ ok, Course s who ok (deed.follow s who) := by
  cases deed with
  | exec st args => exact ⟨_, exec_course s who st args⟩
  | query st args => exact ⟨true, .still rfl rfl⟩
  | queryRow st args => exact ⟨true, .still rfl rfl⟩

end Deeds

section Endings
variable (t : Ticket) (how : Finish)

/-- However a transaction ends, it is not open afterwards. -/
theorem writer?_finish :
    (how.onStore s t).1.writer? = s.writer?.filter fun w => w.ticket ≠ t := by
  cases how with
  | commit => exact writer?_commit s t
  | rollback => exact writer?_rollback s t
  | drop => exact writer?_release s t

theorem committed_finish : (how.onStore s t).1.committed =
    if how = .commit ∧ (how.onStore s t).2.isOk then s.view (some t) else s.committed := by
  cases how with
  | commit =>
    simp only [Finish.onStore, true_and]
    exact committed_commit s t
  | rollback => exact committed_rollback s t
  | drop => exact committed_release s t

end Endings

end DualWrite.Pool
