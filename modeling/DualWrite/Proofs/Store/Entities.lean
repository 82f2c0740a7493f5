import DualWrite.Proofs.Store.Reading

/-!
# Entities of a keyed store

The answers of a keyed store, said through `Store.entity?` alone: what a page holds, what it
cannot miss, and what a look-up and a presence test say.
-/
namespace DualWrite
open Store

namespace Interactive
variable {titles : List String} {row : List Value} {r : Interactive}

theorem ofRow_eq_ok : ofRow titles row = .ok r ↔
    intAt titles row "id" = .ok r.id ∧ intAt titles row "biz_id" = .ok r.bizId ∧
    textAt titles row "biz" = .ok r.biz ∧ intAt titles row "read_cnt" = .ok r.readCnt ∧
    intAt titles row "like_cnt" = .ok r.likeCnt ∧ intAt titles row "collect_cnt" =
    .ok r.collectCnt ∧
    intAt titles row "u_time" = .ok r.uTime ∧ intAt titles row "c_time" = .ok r.cTime := by
  rcases r with ⟨id, bizId, biz, readCnt, likeCnt, collectCnt, uTime, cTime⟩
  simp only [ofRow, bind, Except.bind, pure, Except.pure]
  constructor
  · intro h
    repeat' split at h
    all_goals simp_all
  · rintro ⟨h1, h2, h3, h4, h5, h6, h7, h8⟩
    simp only [h1, h2, h3, h4, h5, h6, h7, h8]

theorem cell_eq {s : Schema} {x : Row} {column : String} :
    cell s.names x.values column = match s.place? column with
      | some k => .ok (k, s.names.getD k column, x.value k)
      | none => .error (.columnName column) := by
  have hplace : s.names.findIdx? (fun t => Text.sameName t column) = s.place? column := by
    rw [Schema.names, List.findIdx?_map]; rfl
  rw [cell, hplace]
  rfl

theorem intAt_eq_ok {s : Schema} {x : Row} {column : String} {n : Int} :
    intAt s.names x.values column = .ok n ↔ ∃ k, s.place? column = some k ∧ x.value k = .int n := by
  rw [intAt, cell_eq]
  cases hp : s.place? column with
  | none => simp [bind, Except.bind]
  | some k =>
    simp only [bind, Except.bind, Option.some.injEq, exists_eq_left']
    cases x.value k <;> simp

theorem textAt_eq_ok {s : Schema} {x : Row} {column : String} {text : String} :
    textAt s.names x.values column = .ok text ↔
      ∃ k, s.place? column = some k ∧ x.value k = .text text := by
  rw [textAt, cell_eq]
  cases hp : s.place? column with
  | none => simp [bind, Except.bind]
  | some k =>
    simp only [bind, Except.bind, Option.some.injEq, exists_eq_left']
    cases x.value k <;> simp

end Interactive

namespace Store
variable {s : Store} {t : Table}

theorem Table.Keyed.id_of_entity (hk : t.Keyed) {r : Row} (hr : r ∈ t.rows) {e : Interactive}
    (he : t.entity r = .ok e) : e.id = r.number := by
  obtain ⟨k, hp, hv⟩ := Interactive.intAt_eq_ok.1 (Interactive.ofRow_eq_ok.1 he).1
  have hn := hk.number r hr
  rw [Schema.read, show t.schema.place? Source.idName.text = some k from hp] at hn
  exact Value.int.inj (hv.symm.trans hn)

theorem entity?_eq (ht : s.table? = some t) (id : Int) :
    s.entity? id = (t.row? id).map t.entity := by
  rw [entity?, ht]; rfl

/-- A part of an ascending list that reaches up to an element holds it. -/
theorem mem_take_of_le {l : List Int} (hl : l.Pairwise (· < ·)) {n : Nat} (hn : 0 < n) {i : Int}
    (hi : i ∈ l) (hlast : ∀ last, (l.take n).getLast? = some last → i ≤ last) : i ∈ l.take n := by
  rw [← List.take_append_drop n l, List.mem_append] at hi
  rcases hi with hi | hi
  · exact hi
  · exfalso
    have hne : l.take n ≠ [] := by
      intro h0
      have : l = [] := by simpa [Nat.ne_of_gt hn] using h0
      simp [this] at hi
    have hle := hlast _ (List.getLast?_eq_some_getLast hne)
    rw [← List.take_append_drop n l, List.pairwise_append] at hl
    have hlt := hl.2.2 _ (List.getLast_mem hne) _ hi
    omega

/-- Ids of a store behind a key, in order and without a gap. -/
structure Stretch (s : Store) (after : Int) (ids : List Int) : Prop where
  ascending : ids.Pairwise (· < ·)
  behind : ∀ i ∈ ids, after < i
  present : ∀ i ∈ ids, (s.entity? i).isSome
  gapless : ∀ i, after < i → (s.entity? i).isSome →
    (∀ last, ids.getLast? = some last → i ≤ last) → i ∈ ids

theorem Stretch.eq_none {after : Int} (h : Stretch s after []) {i : Int} (hi : after < i) :
    s.entity? i = none := by
  by_contra hne
  have := h.gapless i hi (Option.isSome_iff_ne_none.2 hne) (by simp)
  simp at this

section Answers
variable (ht : s.table? = some t) (hk : t.Keyed)
include ht hk

theorem entity?_number {r : Row} (hr : r ∈ t.rows) : s.entity? r.number = some (t.entity r) := by
  rw [entity?_eq ht, hk.row?_eq_some.2 ⟨hr, rfl⟩]
  rfl

theorem entity?_isSome {i : Int} : (s.entity? i).isSome ↔ ∃ r ∈ t.rows, r.number = i := by
  rw [entity?_eq ht, Option.isSome_map, Option.isSome_iff_exists]
  simp only [hk.row?_eq_some]

/-- The rows of a page of a full scan are a stretch of the store. -/
theorem stretch_page {n : Int} (hn : 1 ≤ n) (c : Cursor) :
    Stretch s c.id ((t.page .full n c).map (·.number)) := by
  have hpos : 0 < n.toNat := by omega
  have hmem : ∀ r ∈ t.page .full n c, r ∈ t.rows ∧ c.id < r.number := by
    intro r hr
    rw [hk.page_full] at hr
    simpa using List.mem_filter.1 (List.mem_of_mem_take hr)
  have hascending : ((t.rows.filter (c.id < ·.number)).map (·.number)).Pairwise (· < ·) :=
    List.pairwise_map.2 (hk.ascending.filter _)
  have hpage : (t.page .full n c).map (·.number) =
      ((t.rows.filter (c.id < ·.number)).map (·.number)).take n.toNat := by
    rw [hk.page_full, List.map_take]
  refine ⟨?_, ?_, ?_, ?_⟩
  · rw [hpage]
    exact hascending.sublist (List.take_sublist _ _)
  · intro i hi
    obtain ⟨r, hr, rfl⟩ := List.mem_map.1 hi
    exact (hmem r hr).2
  · intro i hi
    obtain ⟨r, hr, rfl⟩ := List.mem_map.1 hi
    exact (entity?_isSome ht hk).2 ⟨r, (hmem r hr).1, rfl⟩
  · intro i hi hsome hlast
    obtain ⟨r, hr, rfl⟩ := (entity?_isSome ht hk).1 hsome
    rw [hpage] at hlast ⊢
    exact mem_take_of_le hascending hpos
      (List.mem_map.2 ⟨r, List.mem_filter.2 ⟨hr, by simpa using hi⟩, rfl⟩) hlast

end Answers

section Reading
variable (hs : s.Keyed)
include hs

theorem page_ok {n : Int} (hn : 1 ≤ n) {c : Cursor} {rows : List Interactive}
    (h : (Source.ofStore s).page .full n c = .ok rows) :
    Stretch s c.id (rows.map (·.id)) ∧ ∀ r ∈ rows, s.entity? r.id = some (.ok r) := by
  obtain ⟨t, ht, hk⟩ := hs
  rw [ofStore_page ht hk (by omega)] at h
  rcases hm : (t.page .full n c).mapM t.entity with f | es
  · rw [hm] at h; cases h
  · rw [hm] at h
    obtain rfl : es = rows := Except.ok.inj h
    have hid : ∀ x ∈ t.page .full n c, ∀ e, t.entity x = .ok e → e.id = x.number :=
      fun x hx e he => hk.id_of_entity (Table.mem_picked hx) he
    refine ⟨map_of_mapM hm hid ▸ stretch_page ht hk hn c, ?_⟩
    intro e he
    obtain ⟨x, hx, hxe⟩ := exists_of_mapM hm he
    rw [hid x hx e hxe, entity?_number ht hk (Table.mem_picked hx), hxe]

theorem keys_ok {n : Int} (hn : 1 ≤ n) {c : Cursor} {ks : List (Int × Int)}
    (h : (Source.ofStore s).keys .full n c = .ok ks) : Stretch s c.id (ks.map (·.1)) := by
  obtain ⟨t, ht, hk⟩ := hs
  rw [ofStore_keys ht hk (by omega)] at h
  rcases hm : (t.page .full n c).mapM t.stamp with f | es
  · rw [hm] at h; cases h
  · rw [hm] at h
    obtain rfl : es = ks := Except.ok.inj h
    have hid : ∀ x ∈ t.page .full n c, ∀ k, t.stamp x = .ok k → k.1 = x.number := by
      intro x _ k hk
      rw [Table.stamp] at hk
      split at hk
      · rw [← Except.ok.inj hk]
      · cases hk
    exact map_of_mapM hm hid ▸ stretch_page ht hk hn c

theorem find_ok {id : Int} {r : Option Interactive} (h : (Source.ofStore s).find id = .ok r) :
    s.entity? id = r.map .ok := by
  obtain ⟨t, ht, hk⟩ := hs
  rw [ofStore_find ht hk] at h
  rw [entity?_eq ht]
  cases hr : t.row? id with
  | none =>
    rw [hr] at h
    rw [← Except.ok.inj h]
    rfl
  | some x =>
    rw [hr] at h
    rcases he : t.entity x with f | e
    · simp [he, Functor.map, Except.map] at h
    · simp [he, Functor.map, Except.map] at h
      simp [← h, he]

theorem mem_present {ids : List Int} {found : List Int}
    (h : (Source.ofStore s).present ids = .ok found) {i : Int} :
    i ∈ found ↔ i ∈ ids ∧ (s.entity? i).isSome := by
  obtain ⟨t, ht, hk⟩ := hs
  rw [ofStore_present ht hk] at h
  rw [← Except.ok.inj h, List.mem_map, entity?_isSome ht hk]
  constructor
  · rintro ⟨r, hr, rfl⟩
    obtain ⟨hr, hm⟩ := List.mem_filter.1 hr
    exact ⟨by simpa using hm, r, hr, rfl⟩
  · rintro ⟨hi, r, hr, rfl⟩
    exact ⟨r, List.mem_filter.2 ⟨hr, by simpa using hi⟩, rfl⟩

end Reading

end Store
end DualWrite
