import DualWrite.Proofs.Pool.Halves
import DualWrite.Proofs.Store.Holding
import DualWrite.Session.Vocabulary

/-!
# Transactions of a pool are pinned and atomic

A transaction goes to the stores that the pattern named when it was opened, whatever becomes of the
pattern. As long as no statement has ended one of its halves, nothing of it is committed on either
store unless the primary store commits it; and however it ends, it leaves both stores unlocked.
-/
namespace DualWrite.Pool
open Store

/-- What may happen while a transaction is open: a deed in it, or another code in the shared
pattern. -/
inductive Meanwhile where
  | deed (deed : Deed)
  | switch (code : UInt8)

def Meanwhile.isDeed : Meanwhile → Bool
  | .deed _ => true
  | .switch _ => false

section Through
variable {σ : Type} [Backend σ] (t : Transaction)

def happen (p : Pool σ) : Meanwhile → Pool σ
  | .deed deed => (p.actIn t deed).after
  | .switch code => { p with code := code }

def through (p : Pool σ) (hs : List Meanwhile) : Pool σ := hs.foldl (happen t) p

def replies (p : Pool σ) : List Meanwhile → List (Except Error Reply)
  | [] => []
  | .deed deed :: hs => (p.actIn t deed).result :: replies (happen t p (.deed deed)) hs
  | .switch code :: hs => replies (happen t p (.switch code)) hs

variable {t} {p q : Pool σ}

/-- Two pools with the same stores do the same with a deed, whatever their patterns. -/
theorem actIn_congr (h : ∀ d, p.store d = q.store d) (deed : Deed) :
    (p.actIn t deed).result = (q.actIn t deed).result ∧
      ∀ d, (p.actIn t deed).after.store d = (q.actIn t deed).after.store d := by
  constructor
  · rw [actIn_result, actIn_result, h]
  · intro d
    rw [actIn_after, actIn_after, h, h]
    rcases d.eq_or_eq_other t.pattern.base with rfl | rfl <;> simp

theorem finish_congr (h : ∀ d, p.store d = q.store d) (how : Finish) :
    (p.finish t how).result = (q.finish t how).result ∧
      ∀ d, (p.finish t how).after.store d = (q.finish t how).after.store d := by
  constructor
  · rw [finish_result, finish_result, h]
  · intro d
    rw [finish_after, finish_after, h, h]
    rcases d.eq_or_eq_other t.pattern.base with rfl | rfl <;> simp

/-- A transaction does not notice the switches of the pattern. -/
theorem through_filter (h : ∀ d, p.store d = q.store d) (hs : List Meanwhile) :
    replies t p hs = replies t q (hs.filter Meanwhile.isDeed) ∧
      ∀ d, (through t p hs).store d = (through t q (hs.filter Meanwhile.isDeed)).store d := by
  induction hs generalizing p q with
  | nil => exact ⟨rfl, h⟩
  | cons m hs ih =>
    cases m with
    | deed deed =>
      obtain ⟨hresult, hafter⟩ := actIn_congr h deed
      obtain ⟨hreplies, hstores⟩ := ih hafter
      refine ⟨?_, hstores⟩
      change _ :: replies t (p.actIn t deed).after hs =
        _ :: replies t (q.actIn t deed).after (hs.filter Meanwhile.isDeed)
      rw [hresult, hreplies]
    | switch code => exact ih fun d => (store_setCode p d code).trans (h d)

end Through

section Halves
variable {p : Pool Store} {t : Transaction} {d : Direction}

theorem store_happen_of_none (h : t.ticket? d = none) (m : Meanwhile) :
    (happen t p m).store d = p.store d := by
  cases m with
  | deed deed =>
    rcases d.eq_or_eq_other t.pattern.base with rfl | rfl
    · simp at h
    · have hu : t.secondary? = none := by simpa using h
      simp [happen, actIn_after, hu, seconded]
  | switch code => exact store_setCode p d code

theorem happen_course {u : Ticket} (h : t.ticket? d = some u) (m : Meanwhile) :
    ∃ ok, Course (p.store d) (some u) ok ((happen t p m).store d) := by
  cases m with
  | deed deed =>
    rcases d.eq_or_eq_other t.pattern.base with rfl | rfl
    · obtain rfl : t.primary = u := by simpa using h
      simp only [happen, actIn_after, withStores_store]
      exact ⟨_, onStore_course ..⟩
    · have hu : t.secondary? = some u := by simpa using h
      simp only [happen, actIn_after, withStores_store_other, hu, seconded_some]
      split
      · exact follow_course ..
      · exact ⟨true, .still rfl rfl⟩
  | switch code =>
    rw [happen, store_setCode]
    exact ⟨true, .still rfl rfl⟩

theorem store_finish_of_none (h : t.ticket? d = none) (how : Finish) :
    (p.finish t how).after.store d = p.store d := by
  rcases d.eq_or_eq_other t.pattern.base with rfl | rfl
  · simp at h
  · have hu : t.secondary? = none := by simpa using h
    simp [finish_after, hu, seconded]

/-- A half ends as its holder wants it; the second one is dropped if the first store refused. -/
theorem store_finish {u : Ticket} (h : t.ticket? d = some u) (how : Finish) :
    (p.finish t how).after.store d = (how.onStore (p.store d) u).1 ∨
      (p.finish t how).after.store d = ((p.store d).release u).1 := by
  rcases d.eq_or_eq_other t.pattern.base with rfl | rfl
  · obtain rfl : t.primary = u := by simpa using h
    left
    rw [finish_after, withStores_store]
  · have hu : t.secondary? = some u := by simpa using h
    rw [finish_after, withStores_store_other, hu, seconded_some]
    split
    · exact .inl rfl
    · exact .inr rfl

theorem writer?_store_finish {u : Ticket} (h : t.ticket? d = some u) (how : Finish) :
    ((p.finish t how).after.store d).writer? =
      (p.store d).writer?.filter fun w => w.ticket ≠ u := by
  rcases store_finish (p := p) h how with hs | hs
  · rw [hs, writer?_finish]
  · rw [hs, writer?_release]

/-- An ending changes what is committed only if it is a commit and the primary store accepts it. -/
theorem committed_store_finish (how : Finish)
    (hchanged : ((p.finish t how).after.store d).committed ≠ (p.store d).committed) :
    how = .commit ∧ (p.finish t how).result.isOk := by
  have hresult : (p.finish t how).result.isOk =
      (how.onStore (p.store t.pattern.base) t.primary).2.isOk := by
    rw [finish_result, isOk_mapError]
  rcases d.eq_or_eq_other t.pattern.base with rfl | rfl
  · by_contra hno
    rw [hresult] at hno
    rw [finish_after, withStores_store, committed_finish, if_neg hno] at hchanged
    exact hchanged rfl
  · cases hu : t.secondary? with
    | none => simp [finish_after, hu, seconded] at hchanged
    | some u =>
      rw [finish_after, withStores_store_other, hu, seconded_some, ← hresult] at hchanged
      cases hok : (p.finish t how).result.isOk with
      | false => simp [hok, Backend.release] at hchanged
      | true =>
        refine ⟨?_, rfl⟩
        by_contra hno
        rw [hok, if_pos rfl, committed_finish, if_neg fun hcommit => hno hcommit.1] at hchanged
        exact hchanged rfl

section Run
variable {u : Ticket}

theorem store_through_of_none (h : t.ticket? d = none) (hs : List Meanwhile) :
    (through t p hs).store d = p.store d := by
  induction hs generalizing p with
  | nil => rfl
  | cons m hs ih => exact ih.trans (store_happen_of_none h m)

/-- The half of the transaction is the only writer there can be. -/
theorem free_or_isOpen_through (h : t.ticket? d = some u) (hs : List Meanwhile)
    (hstart : (p.store d).writer? = none ∨ (p.store d).IsOpen u) :
    ((through t p hs).store d).writer? = none ∨ ((through t p hs).store d).IsOpen u := by
  induction hs generalizing p with
  | nil => exact hstart
  | cons m hs ih =>
    obtain ⟨ok, hcourse⟩ := happen_course (p := p) h m
    exact ih (hcourse.free_or_isOpen hstart)

/-- Nothing has been committed while the half is open. -/
theorem committed_through (h : t.ticket? d = some u) {hs : List Meanwhile}
    (hopen : ((through t p hs).store d).IsOpen u) :
    (p.store d).IsOpen u ∧ ((through t p hs).store d).committed = (p.store d).committed := by
  induction hs generalizing p with
  | nil => exact ⟨hopen, rfl⟩
  | cons m hs ih =>
    obtain ⟨ok, hcourse⟩ := happen_course (p := p) h m
    obtain ⟨hnext, hrest⟩ := ih hopen
    obtain ⟨hfirst, hcommitted⟩ := hcourse.of_isOpen hnext
    exact ⟨hfirst, hrest.trans hcommitted⟩

end Run

end Halves

section Opening
variable {p : Pool Store} {t : Transaction} (h : p.begin.result = .ok t)
include h

theorem pattern_of_begin : p.pattern = .ok t.pattern := by
  cases hq : p.pattern with
  | error e => simp [Pool.begin, hq] at h
  | ok q => rw [(begun hq h).1]

theorem primary_of_begin : (p.store t.pattern.base).begin.2 = .ok t.primary :=
  (begun (pattern_of_begin h) h).2.1

theorem secondary_of_begin : t.secondary? =
    t.pattern.second?.bind fun _ => (p.store t.pattern.base.other).begin.2.toOption :=
  (begun (pattern_of_begin h) h).2.2

theorem store_begin_of_none {d : Direction} (hd : t.ticket? d = none) :
    p.begin.after.store d = p.store d := by
  rcases d.eq_or_eq_other t.pattern.base with rfl | rfl
  · simp at hd
  · have hsecond := secondary_of_begin h
    rw [← t.ticket?_other, hd] at hsecond
    rw [begin_after (pattern_of_begin h), withStores_store_other]
    cases hq : t.pattern.second? with
    | none => rfl
    | some e =>
      cases hw : (p.store t.pattern.base.other).writer? with
      | none => simp [hq, (begin_free _ hw).1, Except.toOption] at hsecond
      | some w =>
        have hlocked : Backend.begin (p.store t.pattern.base.other) = (_, .error .locked) :=
          begin_locked _ hw
        rw [seconded_some, hlocked, ite_self]

theorem store_begin {d : Direction} {u : Ticket} (hd : t.ticket? d = some u) :
    (p.store d).writer? = none ∧ p.begin.after.store d = (p.store d).begin.1 ∧
      (p.store d).begin.2 = .ok u := by
  have hfree : ∀ {s : Store}, s.begin.2 = .ok u → s.writer? = none := by
    intro s hs
    cases hw : s.writer? with
    | none => rfl
    | some w => rw [begin_locked _ hw] at hs; cases hs
  have hprimary : (Backend.begin (p.store t.pattern.base)).2 = .ok t.primary := primary_of_begin h
  rcases d.eq_or_eq_other t.pattern.base with rfl | rfl
  · obtain rfl : t.primary = u := by simpa using hd
    rw [begin_after (pattern_of_begin h), withStores_store]
    exact ⟨hfree hprimary, rfl, hprimary⟩
  · have hsecond := secondary_of_begin h
    rw [← t.ticket?_other, hd] at hsecond
    rw [begin_after (pattern_of_begin h), withStores_store_other, hprimary]
    cases hq : t.pattern.second? with
    | none => simp [hq] at hsecond
    | some e =>
      have hopened : (p.store t.pattern.base.other).begin.2 = .ok u := by
        cases hb : (p.store t.pattern.base.other).begin.2 with
        | error f => simp [hq, hb, Except.toOption] at hsecond
        | ok v => simpa [hq, hb, Except.toOption] using hsecond.symm
      exact ⟨hfree hopened, rfl, hopened⟩

end Opening

section Whole
variable {p : Pool Store} {t : Transaction} (ht : p.begin.result = .ok t) (hs : List Meanwhile)
  (how : Finish) {d : Direction}
include ht

/-- A store on which the transaction has no half is left alone. -/
theorem store_whole_of_none (hd : t.ticket? d = none) :
    ((through t p.begin.after hs).finish t how).after.store d = p.store d :=
  calc ((through t p.begin.after hs).finish t how).after.store d
    _ = (through t p.begin.after hs).store d := store_finish_of_none hd how
    _ = p.begin.after.store d := store_through_of_none hd hs
    _ = p.store d := store_begin_of_none ht hd

/-- A store on which the transaction has a half had no writer before and has none afterwards. -/
theorem writer?_whole {u : Ticket} (hd : t.ticket? d = some u) : (p.store d).writer? = none ∧
    (((through t p.begin.after hs).finish t how).after.store d).writer? = none := by
  obtain ⟨hfree, hstart, hticket⟩ := store_begin ht hd
  have hopen : (p.begin.after.store d).IsOpen u := by
    obtain ⟨hu, _, hw, _⟩ := begin_free _ hfree
    rw [hstart, Store.IsOpen, hw, Option.map_some, ← Except.ok.inj (hu.symm.trans hticket)]
  refine ⟨hfree, ?_⟩
  rw [writer?_store_finish hd how]
  rcases free_or_isOpen_through hd hs (.inr hopen) with hnone | hopen
  · rw [hnone]
    rfl
  · obtain ⟨w, hw⟩ := isOpen_iff.1 hopen
    exact filter_of_own? _ _ hw

/-- What is committed changes only at the end, by a commit that the primary store accepts. -/
theorem committed_whole
    (hopen : ∀ u, t.ticket? d = some u → ((through t p.begin.after hs).store d).IsOpen u)
    (hchanged : (((through t p.begin.after hs).finish t how).after.store d).committed ≠
      (p.store d).committed) :
    how = .commit ∧ ((through t p.begin.after hs).finish t how).result = .ok () := by
  have hbefore : ((through t p.begin.after hs).store d).committed = (p.store d).committed := by
    cases hd : t.ticket? d with
    | none => rw [store_through_of_none hd hs, store_begin_of_none ht hd]
    | some u =>
      obtain ⟨hfree, hstart, _⟩ := store_begin ht hd
      rw [(committed_through hd (hopen u hd)).2, hstart, (begin_free _ hfree).2.1]
  rw [← hbefore] at hchanged
  obtain ⟨hcommit, hok⟩ := committed_store_finish how hchanged
  refine ⟨hcommit, ?_⟩
  cases hr : ((through t p.begin.after hs).finish t how).result with
  | ok _ => rfl
  | error e => rw [hr] at hok; cases hok

end Whole

/-- A transaction goes to the stores of the pattern under which it was opened. As long as its halves
are open when it ends, nothing of it is committed unless it is committed and the primary store
accepts that; and it leaves no lock behind. -/
theorem transaction_is_pinned_and_atomic {p : Pool Store} {t : Transaction}
    (ht : p.begin.result = .ok t) (hs : List Meanwhile) (how : Finish) :
    let start := p.begin.after
    let mid := through t start hs
    let o := mid.finish t how
    (p.pattern = .ok t.pattern ∧
      (∀ d, d ≠ t.pattern.base → t.pattern.second? ≠ some d → o.after.store d = p.store d) ∧
      replies t start hs = replies t start (hs.filter Meanwhile.isDeed) ∧
      ∀ d, o.after.store d =
        ((through t start (hs.filter Meanwhile.isDeed)).finish t how).after.store d) ∧
    ((∀ d u, t.ticket? d = some u → (mid.store d).IsOpen u) →
      ∀ d, (o.after.store d).committed ≠ (p.store d).committed →
        how = .commit ∧ o.result = .ok ()) ∧
    ∀ d, (o.after.store d).writer? = (p.store d).writer? ∧
      (t.ticket? d ≠ none → (o.after.store d).begin.2.isOk) := by
  intro start mid o
  obtain ⟨hreplies, hstores⟩ := through_filter (t := t) (fun d => rfl (a := start.store d)) hs
  refine ⟨⟨pattern_of_begin ht, ?_, hreplies, (finish_congr hstores how).2⟩, ?_, ?_⟩
  · intro d hbase hsecond
    obtain rfl := (d.eq_or_eq_other t.pattern.base).resolve_left hbase
    refine store_whole_of_none ht hs how ?_
    cases hq : t.pattern.second? with
    | none => simp [secondary_of_begin ht, hq]
    | some e => exact absurd (Pattern.second?_eq hq ▸ hq) hsecond
  · intro hopen d hchanged
    exact committed_whole ht hs how (hopen d) hchanged
  · intro d
    cases hd : t.ticket? d with
    | none => exact ⟨by rw [store_whole_of_none ht hs how hd], fun h => absurd rfl h⟩
    | some u =>
      obtain ⟨hbefore, hafter⟩ := writer?_whole ht hs how hd
      exact ⟨hafter.trans hbefore.symm, fun _ => by rw [(begin_free _ hafter).1]; rfl⟩

/-- The primary store refuses the commit, since a row refers to one that is not there; meanwhile the
shared code has become one that no pattern has. -/
theorem refused_commit_discards_both_halves :
    let parent : Schema := ⟨"parent", [Session.key "id"], some 0, [], [], none⟩
    let child : Schema :=
      ⟨"child", [Session.key "id", Session.loose "parent_id"], some 0, [], [], some (1, "parent")⟩
    let store (name : String) : Store :=
      { Store.fresh name 0 with committed := ⟨[⟨parent, [], []⟩, ⟨child, [], []⟩]⟩ }
    let p : Pool Store := ⟨store "src", store "dst", Pattern.srcFirst.code⟩
    let t : Transaction := ⟨.srcFirst, 0, some 0⟩
    let orphan : Statement := .insert .abort (.bare "child") [.bare "id", .bare "parent_id"]
    let mid := through t p.begin.after [.deed (.exec orphan [.int 1, .int 7]), .switch 9]
    let o := mid.finish t .commit
    p.begin.result = .ok t ∧ o.result = .error (.store .foreignKey) ∧
      ∀ d, (o.after.store d).committed = (p.store d).committed ∧
        (o.after.store d).begin.2.isOk := by
  intro parent child store p t orphan mid o
  have ht : p.begin.result = .ok t := by decide +kernel
  have hrefused : o.result = .error (.store .foreignKey) := by decide +kernel
  have hsrc : (mid.store .src).IsOpen 0 := by decide +kernel
  have hdst : (mid.store .dst).IsOpen 0 := by decide +kernel
  have hopen : ∀ d u, t.ticket? d = some u → (mid.store d).IsOpen u := by
    intro d u hu
    cases d <;> cases hu <;> assumption
  obtain ⟨_, hatomic, hunlocked⟩ := transaction_is_pinned_and_atomic ht
    [.deed (.exec orphan [.int 1, .int 7]), .switch 9] .commit
  refine ⟨ht, hrefused, fun d => ⟨?_, ?_⟩⟩
  · by_contra hchanged
    have hok := (hatomic hopen d hchanged).2
    cases hrefused.symm.trans hok
  · refine (hunlocked d).2 ?_
    cases d <;> exact Option.some_ne_none _

/-- The second statement of the transaction runs after the first one has ended its half on the first
store: the row it writes there stays when the transaction is dropped. -/
theorem dropped_transaction_leaves_a_row :
    let one := Interactive.plain 1 0
    let row (id : Int) : List Value := (Interactive.plain id 0).values
    let p : Pool Store := ⟨.ofEntities "src" [one], .ofEntities "dst" [one], Pattern.srcFirst.code⟩
    let t : Transaction := ⟨.srcFirst, 0, some 0⟩
    let mid := through t p.begin.after
      [.deed (.exec (Session.insertWith .rollback) (row 1)), .deed (.exec Session.insert (row 2))]
    p.begin.result = .ok t ∧
      ((mid.finish t .drop).after.store .src).committed ≠ (p.store .src).committed := by
  decide +kernel

end DualWrite.Pool
