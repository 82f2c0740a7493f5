import DualWrite.Proofs.Store.Writing

/-!
# What a statement does to transactions

A statement of a caller leaves the transaction of anyone else alone. In the caller's own one it
changes what the transaction has made of the contents, or ends it; what is committed changes only
when a transaction is made permanent, or by a statement outside any.
-/
namespace DualWrite.Store
variable {s d : Store} {who who' : Option Ticket}

def IsOpen (s : Store) (t : Ticket) : Prop := s.writer?.map (·.ticket) = some t

instance (s : Store) (t : Ticket) : Decidable (s.IsOpen t) :=
  inferInstanceAs (Decidable (s.writer?.map (·.ticket) = some t))

theorem own?_eq_some {w : Writer} :
    s.own? who = some w ↔ s.writer? = some w ∧ who = some w.ticket := by
  simp only [own?, Option.filter_eq_some_iff, decide_eq_true_eq, eq_comm (a := who)]

theorem isOpen_iff {t : Ticket} : s.IsOpen t ↔ ∃ w, s.own? (some t) = some w := by
  simp only [IsOpen, own?_eq_some, Option.map_eq_some_iff, Option.some.injEq, eq_comm (a := t)]

@[simp] theorem writer?_setTouched (n : Nat) : (s.setTouched who n).writer? = s.writer? := by
  cases who <;> rfl

@[simp] theorem nextTicket_setTouched (n : Nat) :
    (s.setTouched who n).nextTicket = s.nextTicket := by
  cases who <;> rfl

@[simp] theorem committed_giveBack (t : Ticket) : (s.giveBack t).committed = s.committed := rfl

@[simp] theorem writer?_giveBack (t : Ticket) : (s.giveBack t).writer? = s.writer? := rfl

@[simp] theorem nextTicket_giveBack (t : Ticket) : (s.giveBack t).nextTicket = s.nextTicket := rfl

/-- What a caller's statement makes of a store, and whether it succeeds. -/
inductive Course (s : Store) (who : Option Ticket) : Bool → Store → Prop
  | still {ok : Bool} {s' : Store} (hc : s'.committed = s.committed) (hw : s'.writer? = s.writer?) :
    Course s who ok s'
  | inside {s' : Store} {w : Writer} {c : Contents} (hown : s.own? who = some w)
    (hc : s'.committed = s.committed) (hw : s'.writer? = some { w with contents := c }) :
    Course s who true s'
  | undone {ok : Bool} {s' : Store} {w : Writer} (hown : s.own? who = some w)
    (hc : s'.committed = s.committed) (hw : s'.writer? = none) : Course s who ok s'
  | permanent {s' : Store} {w : Writer} (hown : s.own? who = some w)
    (hc : s'.committed = w.contents) (hw : s'.writer? = none) : Course s who true s'
  | direct {s' : Store} (hfree : s.writer? = none) (hw : s'.writer? = none) : Course s who true s'

theorem modify_course (s : Store) (who : Option Ticket) (st : Statement) (args : List Value) :
    Course s who (s.modify who st args).2.isOk (s.modify who st args).1 := by
  cases hown : s.own? who with
  | some w =>
    cases hm : w.contents.modify st args with
    | ok r =>
      simp only [modify, hown, hm]
      exact .inside (c := r.2) hown (by simp) (by simp)
    | error e =>
      simp only [modify, hown, hm]
      cases he : e.endsTransaction with
      | true => exact .undone hown (by simp) (by simp)
      | false => exact .still (by simp) (by simp [(own?_eq_some.1 hown).1])
  | none =>
    by_cases hw : s.writer?.isSome
    · simp only [modify, hown, hw, if_true]
      exact .still (by simp) (by simp)
    · have hfree : s.writer? = none := by simpa using hw
      cases hm : s.committed.modify st args with
      | error e =>
        simp only [modify, hown, hw, hm]
        exact .still (by simp) (by simp)
      | ok r =>
        by_cases ho : r.2.hasOrphan
        · simp only [modify, hown, hw, hm, ho]
          exact .still (by simp) (by simp)
        · simp only [modify, hown, hw, hm, ho]
          exact .direct hfree (by simpa using hfree)

theorem exec_course (s : Store) (who : Option Ticket) (st : Statement) (args : List Value) :
    Course s who (s.exec who st args).2.isOk (s.exec who st args).1 := by
  simp only [exec]
  split
  · exact .still rfl rfl
  · split
    · exact .still rfl rfl
    · cases hown : s.own? who with
      | none => simpa [commitOwn, hown] using .still rfl rfl
      | some w =>
        by_cases ho : w.contents.hasOrphan
        · simpa [commitOwn, hown, ho] using .still rfl rfl
        · simpa [commitOwn, hown, ho] using .permanent hown rfl rfl
    · cases hown : s.own? who with
      | none => simpa [rollbackOwn, hown] using .still rfl rfl
      | some w => simpa [rollbackOwn, hown] using .undone hown rfl rfl
    · exact modify_course ..

theorem query_course (s : Store) (who : Option Ticket) (st : Statement) (args : List Value) :
    Course s who (s.query who st args).2.isOk (s.query who st args).1 := by
  simp only [query]
  split
  · exact .still rfl rfl
  · split
    · exact .still rfl rfl
    · have h := exec_course s who st args
      rcases hx : s.exec who st args with ⟨s', r⟩
      rw [hx] at h
      cases r <;> exact h

namespace Course
variable {s' : Store} {ok : Bool} {t : Ticket}

/-- As long as the caller's transaction is open, it has been open, and nothing has been
committed. -/
theorem of_isOpen (h : Course s (some t) ok s') (ht : s'.IsOpen t) :
    s.IsOpen t ∧ s'.committed = s.committed := by
  cases h with
  | still hc hw => exact ⟨by rwa [IsOpen, ← hw], hc⟩
  | inside hown hc hw => exact ⟨isOpen_iff.2 ⟨_, hown⟩, hc⟩
  | undone hown hc hw => simp [IsOpen, hw] at ht
  | permanent hown hc hw => simp [IsOpen, hw] at ht
  | direct hfree hw => simp [IsOpen, hw] at ht

/-- Nobody else takes the store while the caller's statement runs. -/
theorem free_or_isOpen (h : Course s (some t) ok s') (hs : s.writer? = none ∨ s.IsOpen t) :
    s'.writer? = none ∨ s'.IsOpen t := by
  cases h with
  | still hc hw => rwa [IsOpen, hw]
  | inside hown hc hw =>
    obtain ⟨_, ht⟩ := own?_eq_some.1 hown
    exact .inr (by simp [IsOpen, hw, ht])
  | undone hown hc hw => exact .inl hw
  | permanent hown hc hw => exact .inl hw
  | direct hfree hw => exact .inl hw

theorem ticket (h : Course s who ok s') {w' : Writer} (hw' : s'.writer? = some w') :
    ∃ w, s.writer? = some w ∧ w.ticket = w'.ticket := by
  cases h with
  | still hc hw => exact ⟨w', hw ▸ hw', rfl⟩
  | inside hown hc hw =>
    obtain rfl := Option.some.inj (hw.symm.trans hw')
    exact ⟨_, (own?_eq_some.1 hown).1, rfl⟩
  | undone hown hc hw => cases hw.symm.trans hw'
  | permanent hown hc hw => cases hw.symm.trans hw'
  | direct hfree hw => cases hw.symm.trans hw'

/-- What fails changes nothing, or takes the caller's transaction along. -/
theorem failed (h : Course s who false s') :
    s'.committed = s.committed ∧ (s'.writer? = s.writer? ∨ (s.own? who).isSome ∧
      s'.writer? = none) := by
  cases h with
  | still hc hw => exact ⟨hc, .inl hw⟩
  | undone hown hc hw => exact ⟨hc, .inr ⟨by simp [hown], hw⟩⟩

end Course

section Ending
variable (s : Store) (t : Ticket)

theorem own?_eq_none :
    s.own? (some t) = none ↔ (s.writer?.filter fun w => w.ticket ≠ t) = s.writer? := by
  cases h : s.writer? with
  | none => simp [own?, h]
  | some w => by_cases ht : w.ticket = t <;> simp [own?, h, ht]

theorem filter_of_own? {w : Writer} (h : s.own? (some t) = some w) :
    (s.writer?.filter fun w => w.ticket ≠ t) = none := by
  obtain ⟨hw, ht⟩ := own?_eq_some.1 h
  simp_all

@[simp] theorem committed_release : (s.release t).1.committed = s.committed := by
  cases h : s.own? (some t) <;> simp [release, rollbackOwn, h]

/-- A transaction that is dropped is no longer open, whether it was or not. -/
@[simp] theorem writer?_release :
    (s.release t).1.writer? = s.writer?.filter fun w => w.ticket ≠ t := by
  cases h : s.own? (some t) with
  | none => simpa [release, rollbackOwn, h] using ((own?_eq_none s t).1 h).symm
  | some w => simpa [release, rollbackOwn, h] using (filter_of_own? s t h).symm

@[simp] theorem committed_rollback : (s.rollback t).1.committed = s.committed := by
  cases h : s.own? (some t) <;> simp [rollback, rollbackOwn, finish, h]

@[simp] theorem writer?_rollback :
    (s.rollback t).1.writer? = s.writer?.filter fun w => w.ticket ≠ t := by
  cases h : s.own? (some t) with
  | none => simp [rollback, rollbackOwn, finish, h]
  | some w => simpa [rollback, rollbackOwn, finish, h] using (filter_of_own? s t h).symm

@[simp] theorem writer?_commit :
    (s.commit t).1.writer? = s.writer?.filter fun w => w.ticket ≠ t := by
  cases h : s.own? (some t) with
  | none => simp [commit, commitOwn, finish, h]
  | some w =>
    by_cases ho : w.contents.hasOrphan
    · simp [commit, commitOwn, finish, h, ho]
    · simpa [commit, commitOwn, finish, h, ho] using (filter_of_own? s t h).symm

theorem committed_commit : (s.commit t).1.committed =
    if (s.commit t).2.result.isOk then s.view (some t) else s.committed := by
  cases h : s.own? (some t) with
  | none => simp [commit, commitOwn, finish, h, Except.isOk, Except.toBool]
  | some w =>
    by_cases ho : w.contents.hasOrphan <;>
      simp [commit, commitOwn, finish, view, h, ho, Except.isOk, Except.toBool]

theorem commit_isOk : (s.commit t).2.result.isOk =
    ((s.own? (some t)).any fun w => !w.contents.hasOrphan) := by
  cases h : s.own? (some t) with
  | none => simp [commit, commitOwn, finish, h, Except.isOk, Except.toBool]
  | some w =>
    by_cases ho : w.contents.hasOrphan <;>
      simp [commit, commitOwn, finish, h, ho, Except.isOk, Except.toBool]

theorem begin_locked {w : Writer} (h : s.writer? = some w) : s.begin = (s, .error .locked) := by
  simp [begin, h]

theorem begin_free (h : s.writer? = none) : s.begin.2 = .ok s.nextTicket ∧
    s.begin.1.committed = s.committed ∧ s.begin.1.writer? = some ⟨s.nextTicket, s.committed⟩ ∧
    s.begin.1.nextTicket = s.nextTicket + 1 := by
  simp [begin, h]

end Ending

structure NoneOpened (s s' : Store) : Prop where
  writer? : ∀ w', s'.writer? = some w' → ∃ w, s.writer? = some w ∧ w.ticket = w'.ticket
  nextTicket : s'.nextTicket = s.nextTicket

theorem NoneOpened.refl (s : Store) : NoneOpened s s := ⟨fun w hw => ⟨w, hw, rfl⟩, rfl⟩

theorem nextTicket_modify (s : Store) (who : Option Ticket) (st : Statement) (args : List Value) :
    (s.modify who st args).1.nextTicket = s.nextTicket := by
  simp only [modify]
  split
  · split <;> simp
  · split
    · simp
    · split
      · simp
      · split <;> simp

theorem noneOpened_exec (s : Store) (who : Option Ticket) (st : Statement) (args : List Value) :
    NoneOpened s (s.exec who st args).1 where
  writer? := fun _ hw' => (exec_course s who st args).ticket hw'
  nextTicket := by
    simp only [exec]
    split
    · rfl
    · split
      · rfl
      · cases hown : s.own? who with
        | none => simp [commitOwn, hown]
        | some w => by_cases ho : w.contents.hasOrphan <;> simp [commitOwn, hown, ho]
      · cases hown : s.own? who <;> simp [rollbackOwn, hown]
      · exact nextTicket_modify ..

theorem noneOpened_of_filter {s' : Store} {t : Ticket}
    (hw : s'.writer? = s.writer?.filter fun w => w.ticket ≠ t) (hn : s'.nextTicket = s.nextTicket) :
    NoneOpened s s' where
  writer? := by
    intro w' hw'
    rw [hw, Option.filter_eq_some_iff] at hw'
    exact ⟨w', hw'.1, rfl⟩
  nextTicket := hn

theorem noneOpened_release (s : Store) (t : Ticket) : NoneOpened s (s.release t).1 := by
  refine noneOpened_of_filter (writer?_release s t) ?_
  cases h : s.own? (some t) <;> simp [release, rollbackOwn, h]

theorem noneOpened_rollback (s : Store) (t : Ticket) : NoneOpened s (s.rollback t).1 := by
  refine noneOpened_of_filter (writer?_rollback s t) ?_
  cases h : s.own? (some t) <;> simp [rollback, rollbackOwn, finish, release, h]

theorem noneOpened_commit (s : Store) (t : Ticket) : NoneOpened s (s.commit t).1 := by
  refine noneOpened_of_filter (writer?_commit s t) ?_
  cases h : s.own? (some t) with
  | none => simp [commit, commitOwn, finish, release, rollbackOwn, h]
  | some w =>
    by_cases ho : w.contents.hasOrphan <;>
      simp [commit, commitOwn, finish, release, rollbackOwn, h, ho]

end DualWrite.Store
