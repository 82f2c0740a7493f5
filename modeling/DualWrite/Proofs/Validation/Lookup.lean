import DualWrite.Proofs.Store.Holding
import DualWrite.Proofs.Store.Versions
import DualWrite.Proofs.Validation.Ascent
import DualWrite.Proofs.Validation.Faults

/-!
# Ids looked up in chunks

The reverse scan asks the base about the ids of a page, some hundreds at a time, and reports those
that no answer names. However the page is cut, this is one difference: the ids of the page less
those of the base's rows. One answer that fails takes the whole look-up along.

Nothing is assumed of the table. A row has an id if the store's own comparison finds it under that
id, and an answer can be read only where the column of ids holds whole numbers.
-/
namespace DualWrite
open Store

/-! ## Lists cut into chunks -/

section Chunks
variable {α : Type} {n : Nat}

theorem length_le_of_mem_chunks (hn : 1 ≤ n) {xs c : List α} (hc : c ∈ chunks n xs) :
    c.length ≤ n := by
  fun_induction chunks n xs with
  | case1 => cases hc
  | case2 x xs ih =>
    rcases List.mem_cons.1 hc with rfl | hc
    · rw [List.length_cons, List.length_take]
      omega
    · exact ih hc

/-- As many chunks as are needed, the last one perhaps shorter than the others. -/
theorem length_chunks (hn : 1 ≤ n) (xs : List α) :
    (chunks n xs).length = (xs.length + (n - 1)) / n := by
  fun_induction chunks n xs with
  | case1 => exact (Nat.div_eq_of_lt (by simp; omega)).symm
  | case2 x xs ih =>
    rw [List.length_cons, ih, List.length_drop, List.length_cons]
    rcases Nat.lt_or_ge xs.length (n - 1) with hlt | hge
    · rw [Nat.sub_eq_zero_of_le hlt.le, Nat.zero_add, Nat.div_eq_of_lt (by omega)]
      exact (Nat.div_eq_of_lt_le (by omega) (by omega)).symm
    · rw [Nat.sub_add_cancel hge, show xs.length + 1 + (n - 1) = xs.length + n by omega,
        Nat.add_div_right _ (by omega)]

end Chunks

/-! ## The rows of the base -/

namespace Store

/-- The table holds a row with this id, as a condition on the column of ids finds it. -/
def hasRow (s : Store) (id : Int) : Bool :=
  s.table?.any fun t => t.rows.any fun r => t.schema.equals r Source.idName (.int id)

/-- Where ids are keys, the rows with an id are those under it. -/
theorem Table.Keyed.hasRow {s : Store} {t : Table} (hk : t.Keyed)
    (ht : s.table? = some t) (id : Int) : s.hasRow id = t.rows.any (·.number = id) := by
  rw [Store.hasRow, ht, Option.any_some, Bool.eq_iff_iff, List.any_eq_true, List.any_eq_true]
  exact exists_congr fun r => and_congr_right fun hr => by rw [hk.equals hr]

/-- A column that is read as a whole number equals no other one. -/
theorem Schema.eq_of_equals {s : Schema} {r : Row} {c : Name} {m n : Int} (hr : s.read r c = .int n)
    (h : s.equals r c (.int m) = true) : n = m := by
  have hstore : (Value.int m).store .integer = .int m := rfl
  rw [Schema.equals, hr] at h
  split at h
  · simpa [hstore] using h
  · rw [facing] at h
    split at h
    · next column _ =>
      cases ha : column.affinity with
      | text => simp [ha, Value.facing, Value.equals, Value.compare, Value.rank] at h
      | integer | none => simpa [ha, Value.facing, equals_int] using h
    · simpa [equals_int] using h

/-- The ids that an answer names are read from the rows with one of the ids asked for. -/
theorem exists_present {s : Store} {ids found : List Int}
    (h : (Source.ofStore s).present ids = .ok found) :
    ∃ t, s.table? = some t ∧ ∃ answer : Rows,
      (t.rows.filter fun r => ids.any fun id => t.schema.equals r Source.idName (.int id)).mapM
        (fun r => Source.intIn answer [t.schema.read r Source.idName] 0) = .ok found := by
  simp only [Source.ofStore] at h
  split at h
  · next answer hanswer =>
    obtain ⟨t, ht, hselect⟩ := exists_select hanswer
    have hread : Source.idsOf answer = .ok found := by
      revert h
      cases Source.idsOf answer <;> simp [Except.mapError]
    have hkept : t.rows.filter (fun r => t.schema.holds r (.among Source.idName ids.length)
          (ids.map .int)) =
        t.rows.filter fun r => ids.any fun id => t.schema.equals r Source.idName (.int id) := by
      refine List.filter_congr fun r _ => ?_
      rw [Schema.holds, List.take_of_length_le (by simp), List.any_map]
      rfl
    rw [t.select_eq (by simp) rfl] at hselect
    obtain rfl := Except.ok.inj hselect
    simp only [Source.idsOf, Table.shown, Table.picked, hkept, List.mapM_map, List.isEmpty_nil,
      if_true] at hread
    exact ⟨t, ht, _, hread⟩
  · cases h

/-- What an answer names are the ids asked for that have a row, whatever the table. -/
theorem mem_present_iff {s : Store} {ids found : List Int}
    (h : (Source.ofStore s).present ids = .ok found)
    {id : Int} : id ∈ found ↔ id ∈ ids ∧ s.hasRow id = true := by
  obtain ⟨t, ht, answer, hread⟩ := exists_present h
  have hint : ∀ r i, Source.intIn answer [t.schema.read r Source.idName] 0 = .ok i →
      t.schema.read r Source.idName = .int i := by
    intro r i hi
    rw [Source.intIn, List.getD_cons_zero] at hi
    split at hi
    · next hr => rw [hr, Except.ok.inj hi]
    · cases hi
  simp only [hasRow, ht, Option.any_some, List.any_eq_true]
  constructor
  · intro hid
    obtain ⟨r, hr, hi⟩ := exists_of_mapM hread hid
    obtain ⟨hrow, hany⟩ := List.mem_filter.1 hr
    obtain ⟨asked, hasked, he⟩ := List.any_eq_true.1 hany
    obtain rfl := Schema.eq_of_equals (hint r id hi) he
    exact ⟨hasked, r, hrow, he⟩
  · rintro ⟨hid, r, hrow, he⟩
    obtain ⟨i, hi, hr⟩ := ok_of_mapM hread
      (List.mem_filter.2 ⟨hrow, List.any_eq_true.2 ⟨id, hid, he⟩⟩)
    exact Schema.eq_of_equals (hint r i hr) he ▸ hi

end Store

/-- Whatever a source answers about some ids, it names those of them that have a row. -/
def Source.Knows (source : Source) (row : Int → Bool) : Prop :=
  ∀ ids found, source.present ids = .ok found → ∀ id, id ∈ found ↔ id ∈ ids ∧ row id = true

theorem Store.knows (s : Store) : (Source.ofStore s).Knows s.hasRow :=
  fun _ _ h _ => mem_present_iff h

theorem Source.Knows.failing {source : Source} {row : Int → Bool} (h : source.Knows row)
    (f : Faults) : (source.failing f).Knows row := by
  intro ids found hfound
  simp only [Source.failing] at hfound
  cases hf : f.present ids with
  | none => exact h ids found (by rwa [hf] at hfound)
  | some e => rw [hf] at hfound; cases hfound

/-! ## The turns of a look-up -/

namespace Scan

/-- The next turns of a scan, each with sources and a clock of its own: what is asked, what is
reported, and where the scan then stands. -/
def turns (p : Plan) (sources : Nat → Direction → Source) (clock : Nat → Nat) :
    Nat → Scan → List Request × List Notice × Scan
  | 0, s => ([], [], s)
  | n + 1, s =>
    let next := s.served p (sources 0) (clock 0)
    let rest := turns p (fun i => sources (i + 1)) (fun i => clock (i + 1)) n next.1
    (s.request :: rest.1, next.2 ++ rest.2.1, rest.2.2)

def lookUp (p : Plan) (s : Scan) (ids : List Int) : Scan :=
  s.checked p ids (chunks chunkSize ids) []

variable {p : Plan} {s : Scan} {sources : Nat → Direction → Source} {clock : Nat → Nat}
  {ids present : List Int} {cs : List (List Int)}

/-- A page of keys is followed by the look-up of its ids. -/
theorem onKeys_lookUp {now : Nat} {ks : List (Int × Int)} {last : Int × Int}
    (h : ks.getLast? = some last) :
    (s.onKeys p now (.ok ks)).1 = ({ s with
      failures := 0, cursor := s.cursor.advance last.2 last.1 } : Scan).lookUp p
        (ks.map (·.1)) := by
  have hne : chunks chunkSize (ks.map (·.1)) ≠ [] := by
    cases ks with
    | nil => cases h
    | cons k ks => rw [List.map_cons, chunks]; exact List.cons_ne_nil _ _
  simp only [onKeys, h, lookUp, checked, if_neg hne]

theorem request_checked_cons (c : List Int) :
    (s.checked p ids (c :: cs) present).request = .present c := by
  rcases s with ⟨_ | _, cursor, failures, phase⟩ <;> rfl

section
variable {source : Direction → Source} {now : Nat} {c : List Int}

theorem checked_answered {found : List Int} (h : (source (p.asked s.side)).present c = .ok found) :
    (s.checked p ids (c :: cs) present).served p source now =
      (s.checked p ids cs (present ++ found), []) := by
  rw [served, request_checked_cons]
  simp only [reply, h, receive, onPresent, checked, reduceCtorEq, if_false]
  by_cases hcs : cs = [] <;> simp [hcs, publish]

theorem checked_failed {e : Error} (h : (source (p.asked s.side)).present c = .error e) :
    (s.checked p ids (c :: cs) present).served p source now =
      (s.publish [], [.presenceFailed (p.asked s.side).storeName e]) := by
  rw [served, request_checked_cons]
  simp only [reply, h, receive, onPresent, checked, reduceCtorEq, if_false]
  rfl

end

/-- A chunk that is answered is left to the rest of the look-up. -/
theorem turns_checked {c found : List Int} (h : (sources 0 (p.asked s.side)).present c = .ok found)
    (n : Nat) : (s.checked p ids (c :: cs) present).turns p sources clock (n + 1) =
      let rest := (s.checked p ids cs (present ++ found)).turns p (fun i => sources (i + 1))
        (fun i => clock (i + 1)) n
      (.present c :: rest.1, rest.2.1, rest.2.2) := by
  rw [turns, checked_answered h, request_checked_cons, List.nil_append]

/-- While every chunk is answered, what the answers name adds up to the ids that have a row. -/
theorem turns_answered {row : Int → Bool} (hrow : ∀ i, (sources i (p.asked s.side)).Knows row)
    (h : ∀ i (hi : i < cs.length), ∃ found,
      (sources i (p.asked s.side)).present cs[i] = .ok found) :
    (s.checked p ids cs present).turns p sources clock cs.length = (cs.map .present, [], s.publish
      ((ids.filter fun id => !(decide (id ∈ present) || decide (id ∈ cs.flatten) && row id)).map
        (p.event .baseMissing))) := by
  induction cs generalizing sources clock present with
  | nil => simp [turns, checked]
  | cons c cs ih =>
    obtain ⟨found, hfound⟩ : ∃ found, (sources 0 (p.asked s.side)).present c = .ok found :=
      h 0 (Nat.zero_lt_succ _)
    rw [List.length_cons, turns_checked hfound, ih (fun i => hrow (i + 1)) fun i hi =>
      h (i + 1) (Nat.succ_lt_succ hi)]
    have hadds : ∀ id, (decide (id ∈ present ++ found) || decide (id ∈ cs.flatten) && row id) =
        (decide (id ∈ present) || decide (id ∈ (c :: cs).flatten) && row id) := by
      intro id
      have hone := hrow 0 c found hfound id
      rw [Bool.eq_iff_iff]
      simp only [List.mem_append, List.flatten_cons, Bool.or_eq_true, Bool.and_eq_true,
        decide_eq_true_eq, hone]
      tauto
    simp only [List.map_cons, hadds]

/-- The first chunk that is not answered ends the look-up, and nothing is sent. -/
theorem turns_failed {i : Nat} (hi : i < cs.length) {e : Error}
    (h : ∀ j (hj : j < cs.length), j < i → ∃ found,
      (sources j (p.asked s.side)).present cs[j] = .ok found)
    (he : (sources i (p.asked s.side)).present cs[i] = .error e) :
    (s.checked p ids cs present).turns p sources clock (i + 1) = ((cs.take (i + 1)).map .present,
      [.presenceFailed (p.asked s.side).storeName e], s.publish []) := by
  induction i generalizing cs sources clock present with
  | zero =>
    obtain ⟨c, cs, rfl⟩ := List.exists_cons_of_length_pos hi
    have he : (sources 0 (p.asked s.side)).present c = .error e := he
    rw [turns, checked_failed he, request_checked_cons]
    simp [turns]
  | succ i ih =>
    obtain ⟨c, cs, rfl⟩ := List.exists_cons_of_length_pos (Nat.zero_lt_of_lt hi)
    obtain ⟨found, hfound⟩ : ∃ found, (sources 0 (p.asked s.side)).present c = .ok found :=
      h 0 (Nat.zero_lt_succ _) (Nat.zero_lt_succ _)
    rw [turns_checked hfound, ih (Nat.lt_of_succ_lt_succ hi)
      (fun j hj hji => h (j + 1) (Nat.succ_lt_succ hj) (Nat.succ_lt_succ hji)) he]
    simp

end Scan

/-- Whatever the base's table holds and whichever ids are looked up, the chunks put together are the
ids, no chunk is longer than five hundred and there are no more of them than it takes. If each of
them is answered, each is asked about once, in order, and what is reported are the ids of the list
that have no row, each as often and in the order in which the list has them. Otherwise the first
fault is logged, no further chunk is asked about, and nothing is reported. A chunk may occur twice,
so the faults of each request are given separately. -/
theorem look_up_in_chunks_is_one_difference (p : Plan) (s : Scan) (stores : Direction → Store)
    (faults : Nat → Faults) (clock : Nat → Nat) (ids : List Int) :
    let base := p.asked s.side
    let sources := fun i d => (Source.ofStore (stores d)).failing (faults i)
    let pieces := chunks chunkSize ids
    let answer := fun i (hi : i < pieces.length) => (sources i base).present pieces[i]
    pieces.flatten = ids ∧ pieces.length = (ids.length + 499) / 500 ∧
    (∀ c ∈ pieces, c.length ≤ 500) ∧ ((∀ i hi, ∃ found, answer i hi = .ok found) ∧
        (s.lookUp p ids).turns p sources clock pieces.length = (pieces.map .present, [],
          s.publish ((ids.filter fun id => !(stores base).hasRow id).map (p.event .baseMissing))) ∨
      ∃ i hi e, (∀ j hj, j < i → ∃ found, answer j hj = .ok found) ∧ answer i hi = .error e ∧
        (s.lookUp p ids).turns p sources clock (i + 1) = ((pieces.take (i + 1)).map .present,
          [.presenceFailed base.storeName e], s.publish [])) := by
  intro base sources pieces answer
  have hknows : ∀ i, (sources i base).Knows (stores base).hasRow :=
    fun i => (stores base).knows.failing (faults i)
  refine ⟨flatten_chunks _ _, length_chunks (by decide) _,
    fun c hc => length_le_of_mem_chunks (by decide) hc, ?_⟩
  by_cases hall : ∀ i hi, ∃ found, answer i hi = .ok found
  · refine .inl ⟨hall, ?_⟩
    rw [Scan.lookUp, Scan.turns_answered hknows hall, flatten_chunks]
    congr 4
    refine List.filter_congr fun id hid => ?_
    simp [hid]
  · have hsome : ∃ i, ∃ hi : i < pieces.length, ∃ e, answer i hi = .error e := by
      simp only [not_forall] at hall
      obtain ⟨i, hi, hno⟩ := hall
      rcases he : answer i hi with e | found
      · exact ⟨i, hi, e, he⟩
      · exact absurd ⟨found, he⟩ hno
    classical
    obtain ⟨hi, e, he⟩ := Nat.find_spec hsome
    have hbefore : ∀ j hj, j < Nat.find hsome → ∃ found, answer j hj = .ok found := by
      intro j hj hlt
      rcases hj' : answer j hj with e | found
      · exact absurd ⟨hj, e, hj'⟩ (Nat.find_min hsome hlt)
      · exact ⟨found, rfl⟩
    exact .inr ⟨_, hi, e, hbefore, he, Scan.turns_failed hi hbefore he⟩

/-- Six hundred times an id that has a row and twice one that has none make two chunks. The latter
is reported twice, and nothing is where the second chunk is not answered. -/
theorem look_up_of_an_id_six_hundred_times :
    let stores : Direction → Store := fun _ => .ofEntities "dst" [.plain 3 0]
    let p : Plan := ⟨.src, .src, .full, 0, 1, 0⟩
    let s := Scan.start p .reverse
    let ids : List Int := List.replicate 600 3 ++ [7, 3, 7]
    let sources (faults : Nat → Faults) (i : Nat) (d : Direction) :=
      (Source.ofStore (stores d)).failing (faults i)
    let second : Nat → Faults := fun i =>
      { Faults.none with present := fun _ => if i = 1 then some (.other "gone") else none }
    (s.lookUp p ids).turns p (sources fun _ => .none) (fun _ => 0) 2 =
        ((chunks chunkSize ids).map .present, [],
          s.publish [p.event .baseMissing 7, p.event .baseMissing 7]) ∧
      (s.lookUp p ids).turns p (sources second) (fun _ => 0) 2 =
        ((chunks chunkSize ids).map .present, [.presenceFailed "src" (.other "gone")],
          s.publish []) := by
  intro stores p s ids sources second
  have hlength : (chunks chunkSize ids).length = 2 := by
    have hids : ids.length = 603 := by
      rw [List.length_append, List.length_replicate]
      rfl
    rw [length_chunks (by decide), hids]
    rfl
  have hpresent : ∀ d c, ∃ found, (Source.ofStore (stores d)).present c = .ok found := fun _ c =>
    (Store.holds_ofEntities "dst" (by decide)).present c
  have hfilter : ids.filter (fun id => !(stores (p.asked s.side)).hasRow id) = [7, 7] := by
    have hthree : (stores (p.asked s.side)).hasRow 3 = true := by decide +kernel
    have hseven : (stores (p.asked s.side)).hasRow 7 = false := by decide +kernel
    rw [List.filter_append, List.filter_replicate_of_neg (by simp [hthree])]
    simp [hthree, hseven]
  constructor
  · obtain ⟨_, _, _, ⟨_, hturns⟩ | ⟨i, hi, e, _, he, _⟩⟩ :=
      look_up_in_chunks_is_one_difference p s stores (fun _ => .none) (fun _ => 0) ids
    · rwa [hlength, hfilter] at hturns
    · obtain ⟨found, hfound⟩ := hpresent (p.asked s.side) (chunks chunkSize ids)[i]
      cases hfound.symm.trans he
  · obtain ⟨_, _, _, ⟨hall, _⟩ | ⟨i, hi, e, hbefore, he, hturns⟩⟩ :=
      look_up_in_chunks_is_one_difference p s stores second (fun _ => 0) ids
    · obtain ⟨found, hfound⟩ := hall 1 (by omega)
      cases hfound
    · obtain rfl : i = 1 := by
        by_contra hne
        obtain rfl : i = 0 := by omega
        obtain ⟨found, hfound⟩ := hpresent (p.asked s.side) (chunks chunkSize ids)[0]
        cases hfound.symm.trans he
      obtain rfl : Error.other "gone" = e := Except.error.inj he
      rwa [List.take_of_length_le hlength.le] at hturns

end DualWrite
