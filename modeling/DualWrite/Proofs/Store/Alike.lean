import DualWrite.Proofs.Store.Transactions

/-!
# Stores that go together

Two stores are alike if the same is committed in both and the transaction open in one has made the
same of it as the one open in the other. What a caller does to both, in transactions that stand for
each other, succeeds in both or in neither and leaves them alike.
-/
namespace DualWrite.Store

structure Alike (s d : Store) : Prop where
  committed : s.committed = d.committed
  writer? : s.writer?.map (·.contents) = d.writer?.map (·.contents)

/-- A caller's transaction of one store is the open one if that of the other store is. -/
def Linked (s d : Store) (who who' : Option Ticket) : Prop :=
  ∀ v w, s.writer? = some v → d.writer? = some w → (who = some v.ticket ↔ who' = some w.ticket)

theorem Linked.outside (s d : Store) : Linked s d none none := by
  intro v w _ _
  simp

namespace Alike
variable {s d s' d' : Store} {who who' : Option Ticket}

theorem symm (h : Alike s d) : Alike d s := ⟨h.committed.symm, h.writer?.symm⟩

theorem of_same (h : Alike s d) (hc : s'.committed = s.committed) (hw : s'.writer? = s.writer?)
    (hc' : d'.committed = d.committed) (hw' : d'.writer? = d.writer?) : Alike s' d' :=
  ⟨by rw [hc, hc', h.committed], by rw [hw, hw', h.writer?]⟩

theorem isSome (h : Alike s d) : s.writer?.isSome = d.writer?.isSome := by
  simpa using congrArg Option.isSome h.writer?

section Linked
variable (h : Alike s d) (hl : Linked s d who who')
include h hl

theorem own? : (s.own? who).map (·.contents) = (d.own? who').map (·.contents) := by
  have hcontents := h.writer?
  cases hv : s.writer? with
  | none =>
    cases hw : d.writer? with
    | none => simp [Store.own?, hv, hw]
    | some w => simp [hv, hw] at hcontents
  | some v =>
    cases hw : d.writer? with
    | none => simp [hv, hw] at hcontents
    | some w =>
      have hlink := hl v w hv hw
      have hsame : v.contents = w.contents := by simpa [hv, hw] using hcontents
      by_cases hown : who = some v.ticket
      · simp [Store.own?, hv, hw, hown, hlink.1 hown, hsame, Option.filter_some]
      · have hown' : who' ≠ some w.ticket := fun he => hown (hlink.2 he)
        simp [Store.own?, hv, hw, Ne.symm hown, Ne.symm hown', Option.filter_some]

theorem own_cases : (s.own? who = none ∧ d.own? who' = none) ∨
    ∃ v w, s.own? who = some v ∧ d.own? who' = some w ∧ v.contents = w.contents := by
  have hown := h.own? hl
  cases hv : s.own? who with
  | none =>
    cases hw : d.own? who' with
    | none => exact .inl ⟨rfl, rfl⟩
    | some w => simp [hv, hw] at hown
  | some v =>
    cases hw : d.own? who' with
    | none => simp [hv, hw] at hown
    | some w => exact .inr ⟨v, w, rfl, rfl, by simpa [hv, hw] using hown⟩

theorem view : s.view who = d.view who' := by
  rcases h.own_cases hl with ⟨hv, hw⟩ | ⟨v, w, hv, hw, hsame⟩
  · simp [Store.view, hv, hw, h.committed]
  · simp [Store.view, hv, hw, hsame]

theorem modify (st : Statement) (args : List Value) :
    (s.modify who st args).2.isOk = (d.modify who' st args).2.isOk ∧
      Alike (s.modify who st args).1 (d.modify who' st args).1 := by
  rcases h.own_cases hl with ⟨hv, hw⟩ | ⟨v, w, hv, hw, hsame⟩
  · by_cases hlocked : s.writer?.isSome
    · have hlocked' : d.writer?.isSome := h.isSome ▸ hlocked
      simp only [Store.modify, hv, hw, hlocked, hlocked', if_true, true_and]
      exact h.of_same (by simp) (by simp) (by simp) (by simp)
    · have hlocked' : ¬ d.writer?.isSome := h.isSome ▸ hlocked
      cases hm : d.committed.modify st args with
      | error e =>
        simp only [Store.modify, hv, hw, hlocked, hlocked', h.committed, hm]
        exact ⟨rfl, h.of_same (by simp) (by simp) (by simp) (by simp)⟩
      | ok r =>
        by_cases ho : r.2.hasOrphan
        · simp only [Store.modify, hv, hw, hlocked, hlocked', h.committed, hm, ho]
          exact ⟨rfl, h.of_same (by simp) (by simp) (by simp) (by simp)⟩
        · simp only [Store.modify, hv, hw, hlocked, hlocked', h.committed, hm, ho]
          exact ⟨rfl, by simp, by simpa using h.writer?⟩
  · cases hm : w.contents.modify st args with
    | error e =>
      have hends : Alike { s with writer? := if e.endsTransaction then none else some v }
          { d with writer? := if e.endsTransaction then none else some w } :=
        ⟨h.committed, by cases e.endsTransaction <;> simp [hsame]⟩
      simp only [Store.modify, hv, hw, hsame, hm, true_and]
      exact hends.of_same (by simp) (by simp) (by simp) (by simp)
    | ok r =>
      simp only [Store.modify, hv, hw, hsame, hm, true_and]
      exact ⟨by simpa using h.committed, by simp⟩

theorem exec (st : Statement) (args : List Value) :
    (s.exec who st args).2.isOk = (d.exec who' st args).2.isOk ∧
      Alike (s.exec who st args).1 (d.exec who' st args).1 := by
  have hready : s.ready who st args = d.ready who' st args := by
    simp only [ready, h.view hl]
  simp only [Store.exec, hready]
  split
  · exact ⟨rfl, h⟩
  · split
    · exact ⟨rfl, h⟩
    · rcases h.own_cases hl with ⟨hv, hw⟩ | ⟨v, w, hv, hw, hsame⟩
      · simp only [commitOwn, hv, hw]
        exact ⟨rfl, h⟩
      · by_cases ho : w.contents.hasOrphan
        · simp only [commitOwn, hv, hw, hsame, ho]
          exact ⟨rfl, h⟩
        · simp only [commitOwn, hv, hw, hsame, ho]
          exact ⟨rfl, rfl, rfl⟩
    · rcases h.own_cases hl with ⟨hv, hw⟩ | ⟨v, w, hv, hw, hsame⟩
      · simp only [rollbackOwn, hv, hw]
        exact ⟨rfl, h⟩
      · simp only [rollbackOwn, hv, hw]
        exact ⟨rfl, h.committed, rfl⟩
    · exact h.modify hl st args

end Linked

section Ending
variable {t u : Ticket} (h : Alike s d) (hl : Linked s d (some t) (some u))
include h hl

theorem filter : (s.writer?.filter fun w => w.ticket ≠ t).map (·.contents) =
    (d.writer?.filter fun w => w.ticket ≠ u).map (·.contents) := by
  rcases h.own_cases hl with ⟨hv, hw⟩ | ⟨v, w, hv, hw, _⟩
  · rw [(own?_eq_none s t).1 hv, (own?_eq_none d u).1 hw, h.writer?]
  · rw [filter_of_own? s t hv, filter_of_own? d u hw]

theorem release : Alike (s.release t).1 (d.release u).1 :=
  ⟨by simp [h.committed], by simpa using h.filter hl⟩

theorem rollback : Alike (s.rollback t).1 (d.rollback u).1 :=
  ⟨by simp [h.committed], by simpa using h.filter hl⟩

theorem commit_isOk : (s.commit t).2.result.isOk = (d.commit u).2.result.isOk := by
  rw [Store.commit_isOk, Store.commit_isOk]
  rcases h.own_cases hl with ⟨hv, hw⟩ | ⟨v, w, hv, hw, hsame⟩
  · rw [hv, hw]
  · simp [hv, hw, hsame]

theorem commit : Alike (s.commit t).1 (d.commit u).1 where
  committed := by
    rw [committed_commit, committed_commit, h.commit_isOk hl, h.view hl, h.committed]
  writer? := by simpa using h.filter hl

end Ending

theorem begin (h : Alike s d) (hfree : s.writer? = none) : Alike s.begin.1 d.begin.1 := by
  have hfree' : d.writer? = none := by simpa [hfree] using h.isSome
  obtain ⟨_, hc, hw, _⟩ := begin_free s hfree
  obtain ⟨_, hc', hw', _⟩ := begin_free d hfree'
  exact ⟨by rw [hc, hc', h.committed], by simp [hw, hw', h.committed]⟩

end Alike

theorem Linked.of_noneOpened {s s' d d' : Store} {who who' : Option Ticket}
    (h : Linked s d who who') (hs : NoneOpened s s') (hd : NoneOpened d d') :
    Linked s' d' who who' := by
  intro v' w' hv' hw'
  obtain ⟨v, hv, hvt⟩ := hs.writer? v' hv'
  obtain ⟨w, hw, hwt⟩ := hd.writer? w' hw'
  rw [← hvt, ← hwt]
  exact h v w hv hw

end DualWrite.Store
