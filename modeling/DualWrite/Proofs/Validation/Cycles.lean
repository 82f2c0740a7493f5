import DualWrite.Proofs.Validation.Overtaking
import DualWrite.Proofs.Validation.Pages

/-!
# The cycles of a polling scan

What a polling scan has read of its table, cycle by cycle. What was read fixes where the cursor
stands, and so which rows a cycle has still to read, whatever is done to the table between cycles.
-/
namespace DualWrite
open Store

/-- Ids with their times, as a polling scan has read them. -/
structure Ledger where
  /-- What each of the cycles that are over has read. -/
  past : List (List (Int × Int))
  /-- What has been read since the last empty page. -/
  now : List (Int × Int)

namespace Ledger

def read (l : Ledger) (keys : List (Int × Int)) : Ledger := { l with now := l.now ++ keys }

/-- A page came back empty, which ends the cycle. -/
def close (l : Ledger) : Ledger := ⟨l.past ++ [l.now], []⟩

def all (l : Ledger) : List (Int × Int) := l.past.flatten ++ l.now

def Met (l : Ledger) (i : Int) : Prop := ∃ k ∈ l.all, k.1 = i

def latest (l : Ledger) : Option Int := (l.past.flatten.map (·.2)).max?

/-- The times that a cycle is to read: those above the watermark until some row has been read, and
from then on those that are not below the latest one. -/
def due (l : Ledger) (watermark : Int) (time : Value) : Bool :=
  match l.latest with
  | none => time.above (.int watermark)
  | some m => time.above (.int m) || time.equals (.int m)

def origin (l : Ledger) (watermark : Int) : Cursor :=
  match l.latest with
  | none => ⟨watermark, maxInt, false⟩
  | some m => ⟨m - 1, maxInt, false⟩

def cursor (l : Ledger) (watermark : Int) : Cursor :=
  match l.now.getLast? with
  | none => l.origin watermark
  | some last => ⟨last.2, last.1, true⟩

variable {l : Ledger} {watermark : Int}

@[simp] theorem all_read (keys : List (Int × Int)) : (l.read keys).all = l.all ++ keys := by
  simp [all, read]

@[simp] theorem all_close : l.close.all = l.all := by simp [all, close]

theorem Met.mono {l' : Ledger} {i : Int} (h : l.Met i) (hmore : l.all ⊆ l'.all) : l'.Met i :=
  let ⟨k, hk, hi⟩ := h
  ⟨k, hmore hk, hi⟩

theorem cursor_fresh (h : l.now = []) : l.cursor watermark = l.origin watermark := by
  simp [cursor, h]

theorem cursor_read {keys : List (Int × Int)} {last : Int × Int} (h : keys.getLast? = some last) :
    (l.read keys).cursor watermark = (l.cursor watermark).advance last.2 last.1 := by
  have hlast : (l.read keys).now.getLast? = some last := by
    rw [read, List.getLast?_append, h]
    rfl
  have hadvanced : ∀ c : Cursor, c.advance last.2 last.1 = ⟨last.2, last.1, true⟩ := fun _ => rfl
  rw [cursor, hlast, hadvanced]

theorem origin_read (keys : List (Int × Int)) :
    (l.read keys).origin watermark = l.origin watermark :=
  rfl

theorem origin_resting : (l.origin watermark).advanced = false := by
  rw [origin]
  split <;> rfl

theorem due_int (u : Int) : l.due watermark (.int u) = true ↔
    (l.latest = none → watermark < u) ∧ ∀ m, l.latest = some m → m ≤ u := by
  rw [due]
  cases l.latest with
  | none => simp [above_int]
  | some m =>
    simp only [above_int, equals_int, Bool.or_eq_true, decide_eq_true_eq, reduceCtorEq,
      false_imp_iff, true_and, Option.some.injEq, forall_eq']
    omega

theorem mem_of_latest {m : Int} (h : l.latest = some m) : ∃ k ∈ l.past.flatten, k.2 = m := by
  obtain ⟨k, hk, hm⟩ := List.mem_map.1 (List.max?_mem h)
  exact ⟨k, hk, hm⟩

/-- Times that are due lie above the watermark, if all that was read before did. -/
theorem above_of_due {u : Int} (habove : ∀ k ∈ l.all, watermark < k.2)
    (h : l.due watermark (.int u) = true) : watermark < u := by
  obtain ⟨hnone, hsome⟩ := due_int u |>.1 h
  cases hl : l.latest with
  | none => exact hnone hl
  | some m =>
    obtain ⟨k, hk, hm⟩ := mem_of_latest hl
    have hw := habove k (List.mem_append_left _ hk)
    have := hsome m hl
    omega

/-- The latest time after a cycle that has read something is the last one of that cycle. -/
theorem latest_close {last : Int × Int} (hlast : l.now.getLast? = some last)
    (hsorted : ∀ k ∈ l.now, k.2 ≤ last.2) (hdue : l.due watermark (.int last.2) = true) :
    l.close.latest = some last.2 := by
  have hflat : l.close.past.flatten = l.past.flatten ++ l.now := by simp [close]
  rw [latest, hflat, List.max?_eq_some_iff]
  constructor
  · exact List.mem_map_of_mem (List.mem_append_right _ (List.mem_of_getLast? hlast))
  · intro u hu
    obtain ⟨k, hk, rfl⟩ := List.mem_map.1 hu
    rcases List.mem_append.1 hk with hk | hk
    · obtain ⟨m, hm⟩ : ∃ m, l.latest = some m := by
        rw [← Option.isSome_iff_exists, latest, List.isSome_max?_iff]
        exact List.ne_nil_of_mem (List.mem_map_of_mem hk)
      have hle : k.2 ≤ m := (List.max?_eq_some_iff.1 hm).2 _ (List.mem_map_of_mem hk)
      have := (due_int _ |>.1 hdue).2 m hm
      omega
    · exact hsorted k hk

theorem origin_close_nil (h : l.now = []) : l.close.origin watermark = l.origin watermark := by
  have hsame : l.close.latest = l.latest := by simp [latest, close, h]
  rw [origin, hsame, origin]

theorem floor (habove : ∀ k ∈ l.all, watermark < k.2) : watermark ≤ (l.origin watermark).utime := by
  rw [origin]
  cases hl : l.latest with
  | none => exact Int.le_refl _
  | some m =>
    obtain ⟨k, hk, rfl⟩ := mem_of_latest hl
    exact Int.le_sub_one_of_lt (habove k (List.mem_append_left _ hk))

end Ledger

/-- A step back that stays within the 64 bits is one by one. -/
theorem restart_eq {c : Cursor} (h : c.advanced = true → minInt ≤ c.utime - 1) :
    c.restart .incremental = if c.advanced then ⟨c.utime - 1, maxInt, false⟩ else c := by
  cases ha : c.advanced with
  | false => exact restart_resting ha
  | true => exact restart_advanced ha (Int.lt_of_le_sub_one (h ha))

/-- A table that can be polled: its ids are of 64 bits, as the key at which a cycle starts is. -/
structure Store.Table.Pollable (t : Table) : Prop extends t.Scannable .incremental where
  small : ∀ r ∈ t.rows, r.number ≤ maxInt

/-- The rows of times that are due were read, and no others, each once, by time and id. -/
structure Store.Table.ReadBy (t : Table) (due : Value → Bool) (keys : List (Int × Int)) : Prop where
  ordered : keys.Pairwise fun a b => a.2 < b.2 ∨ a.2 = b.2 ∧ a.1 < b.1
  sound : ∀ k ∈ keys, ∃ r ∈ t.rows, t.stamp r = .ok k ∧ due (t.schema.read r Source.timeName) = true
  complete : ∀ r ∈ t.rows, due (t.schema.read r Source.timeName) = true →
    ∃ k ∈ keys, t.stamp r = .ok k

/-- Of the rows that lay ahead when the cycle started, the scan has read some, and the others lie
ahead of it. -/
def Store.Table.Midway (t : Table) (watermark : Int) (l : Ledger) : Prop :=
  ∃ rows, t.ahead .incremental (l.origin watermark) =
      rows ++ t.ahead .incremental (l.cursor watermark) ∧
    List.Forall₂ (fun r k => t.stamp r = .ok k) rows l.now

namespace Store.Table
variable {t : Table} {l : Ledger} {watermark : Int}

theorem time_of_stamp {r : Row} {k : Int × Int} (h : t.stamp r = .ok k) :
    k.1 = r.number ∧ t.schema.read r Source.timeName = .int k.2 := by
  rw [Table.stamp] at h
  split at h
  · next u hu =>
    obtain rfl := Except.ok.inj h
    exact ⟨rfl, hu⟩
  · cases h

/-- A row with a whole number for its time lies ahead of the start of a cycle if that time is due.
Of other rows this is not so: one whose time lies between the latest and the whole number below it
is ahead and not due, and a page with it fails. -/
theorem mem_ahead_origin_iff {r : Row} {k : Int × Int} (hr : r ∈ t.rows) (hid : r.number ≤ maxInt)
    (h : t.stamp r = .ok k) : r ∈ t.ahead .incremental (l.origin watermark) ↔
      l.due watermark (t.schema.read r Source.timeName) = true := by
  obtain ⟨-, htime⟩ := time_of_stamp h
  rw [mem_ahead, and_iff_right hr, htime, Ledger.due_int, Cursor.key, Table.key, htime,
    compareKeys_cons,
    compareKeys_int, compare_int, Ordering.then_eq_lt, Int.compare_eq_lt, Int.compare_eq_lt,
    Int.compare_eq_eq, Ledger.origin]
  cases l.latest with
  | none =>
    simp only [true_imp_iff, reduceCtorEq, false_imp_iff, implies_true, and_true]
    omega
  | some m =>
    simp only [reduceCtorEq, false_imp_iff, true_and, Option.some.injEq, forall_eq']
    omega

/-- Every row of a time that is due lies ahead of the start of the cycle. -/
theorem mem_ahead_origin {r : Row} (hr : r ∈ t.rows)
    (hdue : l.due watermark (t.schema.read r Source.timeName) = true) :
    r ∈ t.ahead .incremental (l.origin watermark) := by
  have hlt : (Value.int (l.origin watermark).utime).compare (t.schema.read r Source.timeName) =
    .lt := by
    rw [Ledger.due] at hdue
    rw [Ledger.origin]
    cases hl : l.latest with
    | none =>
      rw [hl] at hdue
      rwa [above_whole, decide_eq_true_eq] at hdue
    | some m =>
      have hback : (Value.int (m - 1)).compare (.int m) = .lt := by
        rw [compare_int, Int.compare_eq_lt]
        omega
      simp only [hl, above_whole, equals_whole, Bool.or_eq_true, decide_eq_true_eq] at hdue
      rcases hdue with hdue | hdue
      · exact Std.TransCmp.lt_trans hback hdue
      · exact Std.TransCmp.lt_of_lt_of_eq hback hdue
  rw [mem_ahead, Cursor.key, Table.key, compareKeys_cons, hlt]
  exact ⟨hr, rfl⟩

/-- Before a cycle has read anything its table may be any. -/
theorem midway_fresh (h : l.now = []) : t.Midway watermark l := by
  refine ⟨[], ?_, ?_⟩
  · rw [l.cursor_fresh h, List.nil_append]
  · rw [h]
    exact .nil

theorem Midway.read (hm : t.Midway watermark l) (hk : t.Keyed) {n : Nat} {keys : List (Int × Int)}
    (hkeys : ((t.ahead .incremental (l.cursor watermark)).take n).mapM t.stamp = .ok keys) :
    t.Midway watermark (l.read keys) := by
  obtain ⟨rows, hrows, hread⟩ := hm
  have hpage := mapM_eq_ok.1 hkeys
  refine ⟨rows ++ (t.ahead .incremental (l.cursor watermark)).take n, ?_,
    List.rel_append hread hpage⟩
  rw [l.origin_read, hrows, List.append_assoc]
  congr 1
  cases hl : keys.getLast? with
  | none =>
    obtain rfl := List.getLast?_eq_none_iff.1 hl
    have hsame : l.read [] = l := by simp [Ledger.read]
    rw [hsame, List.forall₂_nil_right_iff.1 hpage, List.nil_append]
  | some last =>
    obtain ⟨r, hr, hstamp⟩ := getLast?_of_forall₂ hpage hl
    rw [l.cursor_read hl, ahead_drop hk hr hstamp, List.take_append_drop]

namespace Midway
variable (hm : t.Midway watermark l) (ht : t.Pollable)
include hm ht

/-- What has been read of a cycle was due, and was read by time and id. -/
theorem ordered : l.now.Pairwise fun a b => a.2 < b.2 ∨ a.2 = b.2 ∧ a.1 < b.1 := by
  obtain ⟨rows, hrows, hread⟩ := hm
  have hsublist : rows.Sublist (t.ahead .incremental (l.origin watermark)) :=
    hrows ▸ List.sublist_append_left _ _
  have hboth := ((sorted_ahead _ _ _).sublist hsublist).and
    ((nodup_ahead ht.keyed).sublist hsublist)
  apply pairwise_of_forall₂ (forall₂_mem hread) _ hboth
  rintro r r' k k' ⟨hr, hk⟩ ⟨hr', hk'⟩ ⟨hle, hne⟩
  obtain ⟨hid, htime⟩ := time_of_stamp hk
  obtain ⟨hid', htime'⟩ := time_of_stamp hk'
  have hids : k.1 ≠ k'.1 :=
    fun heq => hne (ht.keyed.eq_of_number (mem_ahead.1 (hsublist.subset hr)).1
    (mem_ahead.1 (hsublist.subset hr')).1 (by rw [← hid, ← hid', heq]))
  rw [Table.key, Table.key, htime, htime', ← hid, ← hid', compareKeys_cons,
    compareKeys_int, compare_int,
    Ordering.isLE_iff_ne_gt, Ordering.then_eq_gt, Int.compare_eq_gt, Int.compare_eq_gt,
    Int.compare_eq_eq] at hle
  omega

theorem sound : ∀ k ∈ l.now, ∃ r ∈ t.rows, t.stamp r = .ok k ∧
    l.due watermark (t.schema.read r Source.timeName) = true := by
  obtain ⟨rows, hrows, hread⟩ := hm
  intro k hk
  obtain ⟨r, hr, hstamp⟩ := exists_of_mapM (mapM_eq_ok.2 hread) hk
  have hahead : r ∈ t.ahead .incremental (l.origin watermark) :=
    hrows ▸ List.mem_append_left _ hr
  have hin := (mem_ahead.1 hahead).1
  exact ⟨r, hin, hstamp, (mem_ahead_origin_iff hin (ht.small r hin) hstamp).1 hahead⟩

theorem due_of_mem : ∀ k ∈ l.now, l.due watermark (.int k.2) = true := by
  intro k hk
  obtain ⟨r, _, hstamp, hdue⟩ := hm.sound ht k hk
  rwa [(time_of_stamp hstamp).2] at hdue

/-- Where nothing lies ahead any more, the cycle has read all that was due. -/
theorem readBy (hnone : t.ahead .incremental (l.cursor watermark) = []) :
    t.ReadBy (l.due watermark) l.now where
  ordered := hm.ordered ht
  sound := hm.sound ht
  complete := by
    intro r hr hdue
    obtain ⟨rows, hrows, hread⟩ := hm
    have hin := mem_ahead_origin hr hdue
    rw [hrows, hnone, List.append_nil] at hin
    exact ok_of_mapM (mapM_eq_ok.2 hread) hin

/-- After a cycle that has read something the next one starts behind the time just below the last
one. -/
theorem origin_close {last : Int × Int} (hl : l.now.getLast? = some last) :
    l.close.origin watermark = ⟨last.2 - 1, maxInt, false⟩ := by
  have hordered := hm.ordered ht
  have hsorted : ∀ k ∈ l.now, k.2 ≤ last.2 := by
    obtain ⟨init, hinit⟩ := List.getLast?_eq_some_iff.1 hl
    intro k hk
    rw [hinit] at hordered hk
    rcases List.mem_append.1 hk with hk | hk
    · have := (List.pairwise_append.1 hordered).2.2 k hk last (List.mem_singleton_self _)
      omega
    · rw [List.mem_singleton.1 hk]
  have hdue := hm.due_of_mem ht last (List.mem_of_getLast? hl)
  rw [Ledger.origin, Ledger.latest_close hl hsorted hdue]

/-- At the end of a cycle the cursor comes to stand where the next cycle starts. The step back stays
within the 64 bits. -/
theorem restart (habove : ∀ k ∈ l.all, watermark < k.2) (hmin : minInt ≤ watermark) :
    (l.cursor watermark).restart .incremental = l.close.origin watermark ∧
      ((l.cursor watermark).advanced = true → minInt ≤ (l.cursor watermark).utime - 1) := by
  cases hl : l.now.getLast? with
  | none =>
    have hnow := List.getLast?_eq_none_iff.1 hl
    rw [l.cursor_fresh hnow, l.origin_close_nil hnow, l.origin_resting]
    exact ⟨restart_resting l.origin_resting, fun h => by cases h⟩
  | some last =>
    have hlow := habove last (List.mem_append_right _ (List.mem_of_getLast? hl))
    have hcursor : l.cursor watermark = ⟨last.2, last.1, true⟩ := by rw [Ledger.cursor, hl]
    rw [hcursor, hm.origin_close ht hl]
    refine ⟨restart_advanced rfl (Int.lt_of_le_of_lt hmin hlow), fun _ => ?_⟩
    exact Int.le_sub_one_of_lt (Int.lt_of_le_of_lt hmin hlow)

end Midway
end Store.Table
end DualWrite
