import DualWrite.Proofs.Store.Paging
import DualWrite.Proofs.Store.Transactions
import Mathlib.Algebra.Order.Group.Multiset

/-!
# Row versions

What lies ahead of a cursor grows by the row versions that are committed, and by nothing else. An
insert or an update commits at most as many as the rows that it touches, a deletion none.
-/
namespace DualWrite.Store

def Table.entries (t : Table) : Multiset (Schema × Row) := t.rows.map (t.schema, ·)

def Contents.entries (c : Contents) : Multiset (Schema × Row) :=
  (c.table? Interactive.table).elim 0 Table.entries

/-- Rows that have come in or have been changed. -/
def Table.versions (before after : Table) : Nat := (after.entries - before.entries).card

def Contents.versions (before after : Contents) : Nat := (after.entries - before.entries).card

def versions (before after : Store) : Nat := before.committed.versions after.committed

/-- Row versions that a statement writes when it touches so many rows. -/
def Statement.versions (st : Statement) (touched : Nat) : Nat :=
  match st with
  | .delete .. => 0
  | _ => touched

section
variable {α : Type} [DecidableEq α]

theorem card_sub_le {before after new : Multiset α} (h : after ≤ before + new) :
    (after - before).card ≤ new.card :=
  Multiset.card_le_card (tsub_le_iff_left.2 h)

theorem card_sub_trans (first second third : Multiset α) :
    (third - first).card ≤ (second - first).card + (third - second).card := by
  rw [Nat.add_comm, ← Multiset.card_add]
  exact Multiset.card_le_card tsub_le_tsub_add_tsub

end

@[simp] theorem Contents.versions_self (c : Contents) : c.versions c = 0 := by
  simp [versions]

theorem Contents.versions_trans (c c' c'' : Contents) :
    c.versions c'' ≤ c.versions c' + c'.versions c'' :=
  card_sub_trans ..

@[simp] theorem versions_self (s : Store) : s.versions s = 0 := s.committed.versions_self

def ahead (mode : ScanMode) (c : Cursor) (s : Store) : List Row :=
  s.table?.elim [] (·.ahead mode c)

def Faces (mode : ScanMode) (c : Cursor) (e : Schema × Row) : Prop :=
  compareKeys (c.key mode) (Table.key ⟨e.1, [], []⟩ e.2 mode) = .lt

instance (mode : ScanMode) (c : Cursor) : DecidablePred (Faces mode c) := fun e =>
  inferInstanceAs (Decidable (compareKeys (c.key mode) (Table.key ⟨e.1, [], []⟩ e.2 mode) = .lt))

theorem length_ahead (mode : ScanMode) (c : Cursor) (s : Store) :
    (s.ahead mode c).length = (s.committed.entries.filter (Faces mode c)).card := by
  rw [ahead, Contents.entries, table?]
  cases s.committed.table? Interactive.table with
  | none => rfl
  | some t =>
    simp only [Option.elim_some, Table.entries, Multiset.filter_coe, List.filter_map,
      Multiset.coe_card, List.length_map, Table.ahead, List.length_mergeSort]
    rfl

/-- What lies ahead grows by no more than the row versions that are committed. -/
theorem length_ahead_le (mode : ScanMode) (c : Cursor) (s s' : Store) :
    (s'.ahead mode c).length ≤ (s.ahead mode c).length + s.versions s' := by
  have hsplit : s'.committed.entries ≤ s.committed.entries +
    (s'.committed.entries - s.committed.entries) :=
    le_add_tsub
  have hfaced := Multiset.card_le_card (Multiset.filter_le_filter (Faces mode c) hsplit)
  rw [Multiset.filter_add, Multiset.card_add] at hfaced
  rw [length_ahead, length_ahead, versions, Contents.versions]
  exact hfaced.trans (Nat.add_le_add_left (Multiset.card_le_card (Multiset.filter_le _ _)) _)

namespace Table
variable {t t' : Table} {r : Row} {args : List Value}

theorem perm_insertRow (r : Row) (rows : List Row) : (insertRow r rows).Perm (r :: rows) := by
  induction rows with
  | nil => exact .refl _
  | cons x xs ih =>
    rw [insertRow]
    split
    · exact .refl _
    · exact (ih.cons x).trans (.swap ..)

@[simp] theorem versions_self (t : Table) : t.versions t = 0 := by
  simp [versions]

/-- A row put among some of a table's rows is the only one that is new. -/
theorem versions_insertRow {rows : List Row} (h : rows.Sublist t.rows) (r : Row) :
    t.versions { t with rows := insertRow r rows } ≤ 1 := by
  have hperm : ((insertRow r rows).map (t.schema, ·)).Perm (((r :: rows).map (t.schema, ·))) :=
    (perm_insertRow r rows).map _
  have hone : ({ t with rows := insertRow r rows } : Table).entries ≤ t.entries +
    {(t.schema, r)} := by
    rw [entries, entries, Multiset.coe_eq_coe.2 hperm, List.map_cons, ← Multiset.cons_coe,
      Multiset.add_comm, Multiset.singleton_add, Multiset.cons_le_cons_iff, Multiset.coe_le]
    exact (h.map _).subperm
  exact card_sub_le hone

theorem put_touched {c : Conflict} {n : Nat} (hp : t.put c r = .ok (n, t')) : t' = t ∨ n = 1 := by
  simp only [put] at hp
  split at hp
  · exact .inl (eq_of_refused hp)
  · exact .inl (eq_of_refused hp)
  · split at hp
    · exact .inr (congrArg Prod.fst (Except.ok.inj hp)).symm
    · exact .inl (eq_of_refused hp)
  · exact .inr (congrArg Prod.fst (Except.ok.inj hp)).symm

theorem versions_insert {c : Conflict} {columns : List Name} {n : Nat}
    (hi : t.insert c columns args = .ok (n, t')) : t.versions t' ≤ n := by
  rw [insert] at hi
  split at hi
  · cases hi
  · rcases put_ok hi with rfl | ⟨rows, hrows, _, rfl⟩
    · simp
    · rcases put_touched hi with hsame | rfl
      · simp [hsame]
      · exact versions_insertRow hrows _

theorem versions_updateRow {sets : List (Name × Assigned)} (hu : t.updateRow sets args r = .ok t') :
    t.versions t' ≤ 1 := by
  simp only [updateRow] at hu
  split at hu
  · cases hu
  · split at hu <;> cases hu
    exact versions_insertRow List.filter_sublist _

theorem versions_updateRows {sets : List (Name × Assigned)} {rs : List Row}
    (hu : updateRows sets args t rs = .ok t') : t.versions t' ≤ rs.length := by
  induction rs generalizing t with
  | nil =>
    obtain rfl := Except.ok.inj hu
    simp
  | cons r rs ih =>
    rw [updateRows] at hu
    split at hu
    · cases hu
    · next t₁ h₁ =>
      have hone := versions_updateRow h₁
      have hrest := ih hu
      have htrans : t.versions t' ≤ t.versions t₁ + t₁.versions t' := card_sub_trans ..
      rw [List.length_cons]
      omega

theorem versions_update {sets : List (Name × Assigned)} {whose : Option Name} {n : Nat}
    (hu : t.update sets whose args = .ok (n, t')) : t.versions t' ≤ n := by
  simp only [update] at hu
  split at hu
  · cases hu
  · next h₁ =>
    obtain ⟨rfl, rfl⟩ := Prod.mk.inj (Except.ok.inj hu)
    exact versions_updateRows h₁

theorem versions_delete (t : Table) (whose : Option Name) (args : List Value) :
    t.versions (t.delete whose args).2 = 0 := by
  have hless : (t.delete whose args).2.entries ≤ t.entries :=
    Multiset.coe_le.2 (List.filter_sublist.map _).subperm
  have hnone := card_sub_le (hless.trans_eq (add_zero _).symm)
  rwa [Multiset.card_zero, Nat.le_zero] at hnone

end Table

namespace Contents
variable {c c' : Contents} {t t' : Table} {name : String} {st : Statement}
    {args : List Value} {n : Nat}

theorem modify_cases (hm : c.modify st args = .ok (n, c')) (other : String) :
    c'.table? other = c.table? other ∨
      ∃ t t', c.table? other = some t ∧ c'.table? other = some t' ∧ t'.schema = t.schema ∧
        t.versions t' ≤ st.versions n := by
  have hchange : ∀ {name : String} {t t' : Table}, c.table? name = some t → t'.schema = t.schema →
      t.versions t' ≤ st.versions n → c.setTable t' = c' →
        c'.table? other = c.table? other ∨
          ∃ t t', c.table? other = some t ∧ c'.table? other = some t' ∧ t'.schema = t.schema ∧
            t.versions t' ≤ st.versions n := by
    rintro name t t' ht hs hnew rfl
    exact (table?_change ht hs other).imp_right fun ⟨hbefore, hafter⟩ =>
      ⟨t, t', hbefore, hafter, hs, hnew⟩
  cases st
  case insert | update =>
    simp only [modify] at hm
    split at hm
    · cases hm
    · next t ht =>
      split at hm
      · cases hm
      · next t' hi =>
        obtain ⟨rfl, hc⟩ := Prod.mk.inj (Except.ok.inj hm)
        first
          | exact hchange ht (Table.insert_schema hi) (Table.versions_insert hi) hc
          | exact hchange ht (Table.update_schema hi) (Table.versions_update hi) hc
  case delete table whose =>
    simp only [modify] at hm
    split at hm
    · cases hm
    · next t ht =>
      obtain ⟨rfl, hc⟩ := Prod.mk.inj (Except.ok.inj hm)
      have hs : (t.delete whose args).2.schema = t.schema := rfl
      exact hchange ht hs (t.versions_delete whose args).le hc
  all_goals
    obtain ⟨_, rfl⟩ := Prod.mk.inj (Except.ok.inj hm)
    exact .inl rfl

/-- A statement writes no more row versions than the rows that it inserts or updates. -/
theorem versions_modify (hm : c.modify st args = .ok (n, c')) : c.versions c' ≤ st.versions n := by
  rcases modify_cases hm Interactive.table with hsame | ⟨t, t', ht, ht', _, hnew⟩
  · have hentries : c'.entries = c.entries := by rw [entries, entries, hsame]
    rw [versions, hentries, ← versions, versions_self]
    exact Nat.zero_le _
  · rwa [versions, entries, entries, ht, ht']

end Contents

variable {s : Store} {mode : ScanMode} {who : Option Ticket} {st : Statement}
    {args : List Value} {n : Nat}

theorem view_of_own? {w : Writer} (h : s.own? who = some w) : s.view who = w.contents := by
  rw [view, h]

/-- In and outside transactions, a statement makes no more row versions than it touches rows. -/
theorem versions_view (hm : (s.modify who st args).2 = .ok n) :
    (s.view who).versions ((s.modify who st args).1.view who) ≤ st.versions n := by
  cases hown : s.own? who with
  | some w =>
    cases hc : w.contents.modify st args with
    | error e => simp [modify, hown, hc] at hm
    | ok r =>
      simp only [modify, hown, hc] at hm ⊢
      obtain rfl := Except.ok.inj hm
      have hafter : ∀ s' : Store, s'.writer? = some { w with contents := r.2 } →
        s'.view who = r.2 := by
        intro s' hs'
        exact view_of_own? (own?_eq_some.2 ⟨hs', (own?_eq_some.1 hown).2⟩)
      rw [view_of_own? hown, hafter _ (writer?_setTouched _)]
      exact Contents.versions_modify hc
  | none =>
    simp only [modify, hown] at hm ⊢
    split at hm
    · cases hm
    · next hfree =>
      rw [if_neg hfree]
      cases hc : s.committed.modify st args with
      | error e => simp [hc] at hm
      | ok r =>
        simp only [hc] at hm ⊢
        split at hm
        · cases hm
        · next ho =>
          obtain rfl := Except.ok.inj hm
          have hnone : ∀ s' : Store, s'.writer? = s.writer? → s'.view who = s'.committed := by
            intro s' hs'
            have hfree' : s'.writer? = none := hs'.trans (Option.not_isSome_iff_eq_none.1 hfree)
            rw [view, own?, hfree', Option.filter_none]
          rw [hnone s rfl, hnone _ (by simp [ho]), if_neg ho]
          simpa using Contents.versions_modify hc

def Scannable (mode : ScanMode) (s : Store) : Prop := ∃ t, s.table? = some t ∧ t.Scannable mode

theorem scannable_ofEntities (name : String) {es : List Interactive}
    (h : (es.map (·.id)).Pairwise (· < ·)) (mode : ScanMode) :
    (ofEntities name es).Scannable mode :=
  ⟨.ofEntities es, table?_ofEntities name es, Table.keyed_ofEntities h,
    fun _ => Table.timed_ofEntities es⟩

theorem Contents.schema_modify {c c' : Contents} (hm : c.modify st args = .ok (n, c'))
    (name : String) : (c'.table? name).map (·.schema) = (c.table? name).map (·.schema) := by
  rcases modify_cases hm name with hsame | ⟨t, t', ht, ht', hs, _⟩
  · rw [hsame]
  · rw [ht, ht', Option.map_some, Option.map_some, hs]

theorem schema_exec (s : Store) (st : Statement) (args : List Value) :
    (s.exec none st args).1.table?.map (·.schema) = s.table?.map (·.schema) := by
  have hmodify : (s.modify none st args).1.table?.map (·.schema) = s.table?.map (·.schema) := by
    simp only [modify, own?_none]
    split
    · rw [table?, committed_setTouched, table?]
    · cases hm : s.committed.modify st args with
      | error e => simp [table?]
      | ok r =>
        simp only
        split
        · rw [table?, committed_setTouched, table?]
        · rw [table?, committed_setTouched]
          exact Contents.schema_modify hm _
  simp only [exec]
  split
  · rfl
  · split
    · rfl
    · simp [commitOwn]
    · simp [rollbackOwn]
    · exact hmodify

/-- A statement outside any transaction leaves the table one that can be scanned. -/
theorem Scannable.exec (h : s.Scannable mode) (st : Statement) (args : List Value) :
    (s.exec none st args).1.Scannable mode := by
  obtain ⟨t, ht, hs⟩ := h
  obtain ⟨t', ht', hk⟩ := Keyed.exec ⟨t, ht, hs.keyed⟩ st args
  have hschema := schema_exec s st args
  rw [ht, ht', Option.map_some, Option.map_some, Option.some.injEq] at hschema
  refine ⟨t', ht', hk, fun hm => ?_⟩
  rw [Table.Timed, hschema]
  exact hs.timed hm

/-- Statements of a caller that succeed one after the other, with the row versions that they
write. -/
inductive Wrote (who : Option Ticket) : Store → Nat → Store → Prop where
  | nil {s : Store} : Wrote who s 0 s
  | cons {s s' : Store} {st : Statement} {args : List Value} {touched n : Nat} :
      (s.modify who st args).2 = .ok touched → Wrote who (s.modify who st args).1 n s' →
      Wrote who s (st.versions touched + n) s'

namespace Wrote
variable {s' : Store}

theorem versions_view (h : Wrote who s n s') : (s.view who).versions (s'.view who) ≤ n := by
  induction h with
  | nil => exact (Contents.versions_self _).le
  | cons hm _ ih =>
    exact (Contents.versions_trans _ _ _).trans (Nat.add_le_add (Store.versions_view hm) ih)

/-- Outside transactions each statement is committed at once. -/
theorem versions_le (h : Wrote none s n s') : s.versions s' ≤ n := by
  have hview := h.versions_view
  rwa [view_none, view_none] at hview

theorem versions_commit (hfree : s.writer? = none) (h : Wrote (some s.nextTicket) s.begin.1 n s')
    (hok : (s'.commit s.nextTicket).2.result.isOk = true) :
    s.versions (s'.commit s.nextTicket).1 ≤ n := by
  obtain ⟨_, _, hwriter, _⟩ := begin_free s hfree
  have hbegun : s.begin.1.view (some s.nextTicket) = s.committed :=
    view_of_own? (own?_eq_some.2 ⟨hwriter, rfl⟩)
  have hview := h.versions_view
  rw [hbegun] at hview
  rwa [versions, committed_commit, if_pos hok]

end Wrote

end DualWrite.Store
