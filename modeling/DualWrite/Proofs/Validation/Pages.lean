import DualWrite.Proofs.Store.Paging
import DualWrite.Proofs.Validation.Turn

/-!
# What a table that stands still offers a scan

Read page by page from a cursor on, such a table gives the rows that lie ahead, cut into pieces of
the size of a page.
-/
namespace DualWrite
open Store

/-- The last elements of two lists that correspond to each other do so too. -/
theorem getLast?_of_forall₂ {α β : Type} {R : α → β → Prop} {xs : List α} {ys : List β}
    (h : List.Forall₂ R xs ys) {y : β} (hy : ys.getLast? = some y) :
    ∃ x, xs.getLast? = some x ∧ R x y := by
  induction h with
  | nil => cases hy
  | @cons a b xs ys hab hrest ih =>
    cases hrest with
    | nil =>
      obtain rfl := Option.some.inj hy
      exact ⟨a, rfl, hab⟩
    | cons h t =>
      rw [List.getLast?_cons_cons] at hy ⊢
      exact ih hy

/-- What stands in order in one list has its counterparts in order in the other. -/
theorem pairwise_of_forall₂ {α β : Type} {R : α → β → Prop} {P : α → α → Prop} {Q : β → β → Prop}
    {xs : List α} {ys : List β} (h : List.Forall₂ R xs ys)
    (hpq : ∀ {a a' b b'}, R a b → R a' b' → P a a' → Q b b') (hp : xs.Pairwise P) :
    ys.Pairwise Q := by
  have hcounter : ∀ {xs : List α} {ys : List β}, List.Forall₂ R xs ys → ∀ b ∈ ys,
    ∃ a ∈ xs, R a b := by
    intro xs ys h b hb
    obtain ⟨i, hi, rfl⟩ := List.mem_iff_getElem.1 hb
    exact ⟨_, List.getElem_mem (h.length_eq ▸ hi), h.get _ hi⟩
  induction h with
  | nil => exact .nil
  | cons hab hrest ih =>
    obtain ⟨hhead, htail⟩ := List.pairwise_cons.1 hp
    refine List.pairwise_cons.2 ⟨fun b hb => ?_, ih htail⟩
    obtain ⟨a, ha, hr⟩ := hcounter hrest b hb
    exact hpq hab hr (hhead a ha)

/-- Elements that correspond to each other may be taken to be those of the first list. -/
theorem forall₂_mem {α β : Type} {R : α → β → Prop} {xs : List α} {ys : List β}
    (h : List.Forall₂ R xs ys) : List.Forall₂ (fun x y => x ∈ xs ∧ R x y) xs ys :=
  (List.forall₂_and_left ..).2 ⟨fun _ hx => hx, h⟩

theorem chunks_cons {α : Type} {n : Nat} (hn : 1 ≤ n) (x : α) (xs : List α) :
    chunks n (x :: xs) = (x :: xs).take n :: chunks n ((x :: xs).drop n) := by
  obtain ⟨k, rfl⟩ : ∃ k, n = k + 1 := ⟨n - 1, by omega⟩
  rw [chunks]
  rfl

/-- The pages that are read one after the other from a cursor on, up to the empty one. -/
inductive Pages {α : Type} (page : Cursor → Except Error (List α)) (stamp : α → Int × Int) :
    Cursor → List (List α) → Prop where
  | drained {c} : page c = .ok [] → Pages page stamp c []
  | read {c rows last rest} : page c = .ok rows → rows.getLast? = some last →
      Pages page stamp (c.advance (stamp last).2 (stamp last).1) rest →
      Pages page stamp c (rows :: rest)

/-- What is read page by page is what lies ahead, cut into pieces. -/
theorem pages_ahead {α : Type} {t : Table} {mode : ScanMode} (ht : t.Scannable mode)
    {read : Row → Except Fault α} {stamp : α → Int × Int}
    (hstamp : ∀ r ∈ t.rows, ∀ a, read r = .ok a → t.stamp r = .ok (stamp a))
    {n : Int} (hn : 1 ≤ n) {page : Cursor → Except Error (List α)}
    (hpage : ∀ c, page c = ((t.page mode n c).mapM read).mapError .store)
    {due : List α} {c : Cursor}
    (h : (t.ahead mode c).mapM read = .ok due) : Pages page stamp c (chunks n.toNat due) := by
  induction hlen : due.length using Nat.strongRecOn generalizing due c with
  | ind k ih =>
    have hall := mapM_eq_ok.1 h
    have hread : page c = .ok (due.take n.toNat) := by
      rw [hpage, ht.page_eq, mapM_eq_ok.2 (List.forall₂_take n.toNat hall)]
      rfl
    cases due with
    | nil =>
      rw [List.take_nil] at hread
      rw [chunks]
      exact .drained hread
    | cons x xs =>
      have hpos : 1 ≤ n.toNat := by omega
      have hne : (x :: xs).take n.toNat ≠ [] := by simp; omega
      obtain ⟨r, hr, ha⟩ := getLast?_of_forall₂ (List.forall₂_take n.toNat hall)
        (List.getLast?_eq_some_getLast hne)
      have hrow : r ∈ t.rows := (mem_ahead.1 (List.mem_of_mem_take (List.mem_of_getLast? hr))).1
      have hdrop := ahead_drop ht.keyed hr (hstamp r hrow _ ha)
      rw [chunks_cons hpos]
      apply Pages.read hread (List.getLast?_eq_some_getLast hne)
      apply ih _ _ _ rfl
      · rw [← hlen, List.length_drop, List.length_cons]
        omega
      · rw [hdrop]
        exact mapM_eq_ok.2 (List.forall₂_drop n.toNat hall)

/-- What a store that stands still offers a scan from a cursor on: all that lies ahead can be
read. -/
def Store.Offers {α : Type} (s : Store) (mode : ScanMode) (c : Cursor)
    (read : Table → Row → Except Fault α) (due : List α) : Prop :=
  ∃ t, s.table? = some t ∧ t.Scannable mode ∧ (t.ahead mode c).mapM (read t) = .ok due

namespace Store.Offers
variable {s : Store} {mode : ScanMode} {c : Cursor}

theorem rows {due : List Interactive} (h : s.Offers mode c Table.entity due) {n : Int}
    (hn : 1 ≤ n) : Pages (fun c => (Source.ofStore s).page mode n c) (fun e => (e.id, e.uTime)) c
      (chunks n.toNat due) := by
  obtain ⟨t, ht, hscan, hdue⟩ := h
  apply pages_ahead hscan _ hn (fun c => ofStore_page ht hscan.keyed (by omega) mode c) hdue
  exact fun r hr e he => hscan.keyed.stamp_eq hr he

theorem keys {due : List (Int × Int)} (h : s.Offers mode c Table.stamp due) {n : Int} (hn : 1 ≤ n) :
    Pages (fun c => (Source.ofStore s).keys mode n c) id c (chunks n.toNat due) := by
  obtain ⟨t, ht, hscan, hdue⟩ := h
  apply pages_ahead hscan _ hn (fun c => ofStore_keys ht hscan.keyed (by omega) mode c) hdue
  exact fun r _ k hk => hk

theorem stamps {due : List Interactive} (h : s.Offers mode c Table.entity due) :
    s.Offers mode c Table.stamp (due.map fun e => (e.id, e.uTime)) := by
  obtain ⟨t, ht, hscan, hdue⟩ := h
  have hstamp : ∀ r ∈ t.ahead mode c, ∀ e, t.entity r = .ok e → t.stamp r = .ok (e.id, e.uTime) :=
    fun r hr e he => hscan.keyed.stamp_eq (mem_ahead.1 hr).1 he
  refine ⟨t, ht, hscan, mapM_eq_ok.2 (List.forall₂_map_right_iff.2 ?_)⟩
  exact (forall₂_mem (mapM_eq_ok.1 hdue)).imp fun r e h => hstamp r h.1 e h.2

theorem nodup {due : List (Int × Int)} (h : s.Offers mode c Table.stamp due) :
    (due.map (·.1)).Nodup := by
  obtain ⟨t, ht, hscan, hdue⟩ := h
  have hnumber : ∀ r ∈ t.ahead mode c, ∀ k, t.stamp r = .ok k → k.1 = r.number := by
    intro r _ k hk
    rw [Table.stamp] at hk
    split at hk
    · rw [← Except.ok.inj hk]
    · cases hk
  rw [map_of_mapM hdue hnumber]
  apply (nodup_ahead hscan.keyed).map_on
  intro a ha b hb hab
  exact hscan.keyed.eq_of_number (mem_ahead.1 ha).1 (mem_ahead.1 hb).1 hab

end Store.Offers

namespace Store
variable {s : Store} {es : List Interactive}

/-- A full scan is offered the entities of greater ids. -/
theorem Holds.offers (h : s.Holds es) (c : Cursor) :
    s.Offers .full c Table.entity (es.filter (c.id < ·.id)) := by
  obtain ⟨t, ht, hk, hes⟩ := h
  refine ⟨t, ht, ⟨hk, by simp⟩, ?_⟩
  have hid : ∀ r e, r ∈ t.rows ∧ t.entity r = .ok e →
      (decide (c.id < r.number) = true ↔ decide (c.id < e.id) = true) := by
    rintro r e ⟨hr, he⟩
    rw [hk.id_of_entity hr he]
  rw [hk.ahead_full, mapM_eq_ok]
  exact (List.rel_filter hid (forall₂_mem (mapM_eq_ok.1 hes))).imp fun _ _ h => h.2

/-- An incremental scan is offered the entities behind its key, by time and id. -/
theorem HoldsTimed.offers (h : s.HoldsTimed es) (c : Cursor) :
    s.Offers .incremental c Table.entity
      ((es.filter (c.before ·)).mergeSort Interactive.notAfter) := by
  have hpage := fun n hn => h.page (n := n) hn c
  obtain ⟨t, ht, hk, htime, hes⟩ := h
  have hscan : t.Scannable .incremental := ⟨hk, fun _ => htime⟩
  obtain ⟨due, hdue⟩ := exists_mapM_eq_ok (f := t.entity) fun r (hr : r ∈ t.ahead .incremental c) =>
    let ⟨e, _, he⟩ := ok_of_mapM hes (mem_ahead.1 hr).1
    ⟨e, he⟩
  refine ⟨t, ht, hscan, ?_⟩
  generalize (es.filter (c.before ·)).mergeSort Interactive.notAfter = sorted at *
  let n := max due.length sorted.length
  have hlong := hpage n (by omega)
  rw [ofStore_page ht hk (by omega), hscan.page_eq, Int.toNat_natCast,
    mapM_eq_ok.2 (List.forall₂_take n (mapM_eq_ok.1 hdue))] at hlong
  have hsame := Except.ok.inj hlong
  rw [List.take_of_length_le (Nat.le_max_left _ _),
    List.take_of_length_le (Nat.le_max_right _ _)] at hsame
  rw [hdue, hsame]

end Store
end DualWrite
