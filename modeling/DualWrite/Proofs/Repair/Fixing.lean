import DualWrite.Proofs.Store.Holding
import DualWrite.Proofs.Store.Writing
import DualWrite.Repair.Fixer

/-!
# What a fixer makes of a table

On tables as they are made, a fixer reads the whole row of an id, and writing a row drives out what
collides with it and puts the row in.
-/
namespace DualWrite.Store

structure Row.Fits (s : Schema) (r : Row) : Prop where
  whole : r.values.length = s.columns.length
  kept : ∀ i c, s.columns[i]? = some c → (r.value i).store c.affinity = r.value i
  present : ∀ i c, s.columns[i]? = some c → c.notNull = true → r.value i ≠ .null

structure Table.Standard (t : Table) : Prop where
  schema : t.schema = Interactive.schema
  keyed : t.Keyed
  fits : ∀ r ∈ t.rows, r.Fits t.schema

/-- No two rows have the same values in columns that are unique. -/
def Table.Unique (t : Table) : Prop :=
  ∀ a ∈ t.rows, ∀ b ∈ t.rows, (t.schema.uniques.any fun u => Table.collide u a b) = true → a = b

section Checking
variable {s : Schema} {r : Row} {t : Table}

theorem Row.fits_iff : r.Fits s ↔ r.values.length = s.columns.length ∧
    ∀ i < s.columns.length, ∀ c ∈ s.columns[i]?, (r.value i).store c.affinity = r.value i ∧
      (c.notNull = true → r.value i ≠ .null) := by
  constructor
  · intro h
    exact ⟨h.whole, fun i _ c hc => ⟨h.kept i c hc, h.present i c hc⟩⟩
  · rintro ⟨hwhole, hall⟩
    have hlt : ∀ i c, s.columns[i]? = some c → i < s.columns.length :=
      fun i c hc => (List.getElem?_eq_some_iff.1 hc).1
    exact ⟨hwhole, fun i c hc => (hall i (hlt i c hc) c hc).1,
      fun i c hc => (hall i (hlt i c hc) c hc).2⟩

instance : Decidable (r.Fits s) := decidable_of_iff _ Row.fits_iff.symm

theorem Table.keyed_iff : t.Keyed ↔ (t.schema.key?.isSome ∧ t.schema.place? "id" = t.schema.key?) ∧
    (((t.schema.place? "id").bind (t.schema.columns[·]?)).map (·.affinity)) = some .integer ∧
    (∀ r ∈ t.rows, t.schema.read r Source.idName = .int r.number) ∧
    t.rows.Pairwise (fun a b => a.number < b.number) :=
  ⟨fun h => ⟨h.key, h.whole, h.number, h.ascending⟩, fun ⟨key, whole, number, ascending⟩ =>
    ⟨key, whole, number, ascending⟩⟩

instance : Decidable t.Keyed := decidable_of_iff _ Table.keyed_iff.symm

theorem Table.standard_iff :
    t.Standard ↔ t.schema = Interactive.schema ∧ t.Keyed ∧ ∀ r ∈ t.rows, r.Fits t.schema :=
  ⟨fun h => ⟨h.schema, h.keyed, h.fits⟩, fun ⟨schema, keyed, fits⟩ => ⟨schema, keyed, fits⟩⟩

instance : Decidable t.Standard := decidable_of_iff _ Table.standard_iff.symm

instance : Decidable t.Unique :=
  inferInstanceAs (Decidable (∀ a ∈ t.rows, ∀ b ∈ t.rows, _ → a = b))

end Checking

/-- The rows after a row has been put in the place of all that collide with it. -/
def Table.replaced (t : Table) (r : Row) : List Row :=
  Table.insertRow r (t.rows.filter fun x => !Table.collidesWith t.schema r x)

section Putting
variable {t : Table} {r : Row}

theorem Row.Fits.filled (h : r.Fits t.schema) : Table.filled t.schema r.values = r.values := by
  apply List.ext_getElem?
  intro i
  rw [Table.filled, List.getElem?_zipWith]
  cases hc : t.schema.columns[i]? with
  | none =>
    rw [List.getElem?_eq_none_iff, ← h.whole] at hc
    rw [List.getElem?_eq_none_iff.2 hc]
  | some c =>
    have hlt : i < r.values.length := by
      rw [h.whole]
      exact (List.getElem?_eq_some_iff.1 hc).1
    have hvalue : r.value i = r.values[i] := by simp [Row.value, hlt]
    have hpresent := h.present i c hc
    rw [hvalue] at hpresent
    rw [List.getElem?_eq_getElem hlt]
    simp only [Option.some.injEq]
    split
    · next hnull =>
      simp only [Bool.and_eq_true, decide_eq_true_eq] at hnull
      exact absurd hnull.1 (hpresent hnull.2)
    · rfl

theorem Row.Fits.nullFault? (h : r.Fits t.schema) : Table.nullFault? t.schema r = none := by
  rw [Table.nullFault?, Option.map_eq_none_iff, List.find?_eq_none]
  intro i _ hi
  simp only [Bool.and_eq_true, Option.any_eq_true, decide_eq_true_eq] at hi
  obtain ⟨⟨c, hc, hnull⟩, hvalue⟩ := hi
  exact h.present i c hc hnull hvalue

/-- Where nothing forbids a row, nothing collides with it. -/
theorem Table.filter_of_unique (hu : Table.uniqueFault? t.schema t.rows r = none) :
    t.rows.filter (fun x => !Table.collidesWith t.schema r x) = t.rows := by
  rw [List.filter_eq_self]
  intro x hx
  have hkey := Table.sameKey_eq_false hu x hx
  have hothers : (t.schema.uniques.any fun u => Table.collide u r x) = false := by
    have hnone : Table.uniqueFault?.further t.schema t.rows r = none := by
      rw [Table.uniqueFault?] at hu
      split at hu
      · split at hu
        · cases hu
        · exact hu
      · exact hu
    rw [Table.uniqueFault?.further, Option.map_eq_none_iff, List.find?_eq_none] at hnone
    rw [List.any_eq_false]
    intro u hin hcollide
    exact hnone u hin (List.any_eq_true.2 ⟨x, hx, hcollide⟩)
  simp [Table.collidesWith, hkey, hothers]

theorem Table.put_replace (h : r.Fits t.schema) (hn : t.schema.nonNegative = []) :
    t.put .replace r = .ok (1, { t with rows := t.replaced r }) := by
  have hcheck : Table.checkFault? t.schema r = none := by simp [Table.checkFault?, hn]
  simp only [Table.put, if_true, h.filled, h.nullFault?, hcheck, Table.replaced]
  cases hu : Table.uniqueFault? t.schema t.rows r with
  | none => rw [Table.filter_of_unique hu]
  | some f => rfl

end Putting

def wholeRow : List Name := Interactive.columns.map .quoted

theorem findIdx?_wholeRow {i : Nat} {c : Column} (hc : Interactive.schema.columns[i]? = some c) :
    wholeRow.findIdx? (fun n => Text.sameName n.text c.name) = some i := by
  have hall : ∀ i (hi : i < Interactive.schema.columns.length),
      wholeRow.findIdx? (fun n => Text.sameName n.text (Interactive.schema.columns[i]).name) =
        some i := by decide
  obtain ⟨hi, rfl⟩ := List.getElem?_eq_some_iff.1 hc
  exact hall i hi

section Inserting
variable {t : Table} {r : Row} (hs : t.schema = Interactive.schema)
include hs

theorem Row.Fits.given (h : r.Fits t.schema) :
    Table.given t.schema wholeRow r.values = r.values := by
  apply List.ext_getElem?
  intro i
  rw [Table.given, List.getElem?_map]
  cases hc : t.schema.columns[i]? with
  | none =>
    rw [List.getElem?_eq_none_iff, ← h.whole] at hc
    rw [List.getElem?_eq_none_iff.2 hc, Option.map_none]
  | some c =>
    have hlt : i < r.values.length := by
      rw [h.whole]
      exact (List.getElem?_eq_some_iff.1 hc).1
    have hkept := h.kept i c hc
    rw [Row.value] at hkept
    rw [Option.map_some, findIdx?_wholeRow (hs ▸ hc)]
    simp only [hkept]
    simp [hlt]

theorem Table.insert_row (hk : t.schema.read r Source.idName = .int r.number)
    (h : r.Fits t.schema) :
    t.insert .replace wholeRow r.values = .ok (1, { t with rows := t.replaced r }) := by
  have hkey : t.schema.key? = some 0 := by rw [hs]; rfl
  have hplace : t.schema.place? Source.idName.text = some 0 := by
    rw [hs]
    exact Interactive.place_id
  have hvalue : r.values.getD 0 .null = .int r.number := by
    simpa only [Schema.read, hplace, Row.value] using hk
  have hrow : Table.rowOf t.schema r.values (some t.nextNumber) t.nextNumber = .ok r := by
    simp only [Table.rowOf, hkey, hvalue]
  rw [Table.insert, h.given hs, hrow]
  exact Table.put_replace h (by rw [hs]; rfl)

end Inserting

section Executing
variable {s s' : Store} {t : Table} {n : Nat}

theorem modify_ok {st : Statement} {args : List Value} (h : s.modify none st args = (s', .ok n)) :
    s.committed.modify st args = .ok (n, s'.committed) := by
  rw [Store.modify, own?_none] at h
  simp only at h
  split at h
  · cases h
  · split at h
    · cases h
    · next m c hc =>
      split at h
      · cases h
      · obtain ⟨rfl, hm⟩ := Prod.mk.inj h
        obtain rfl := Except.ok.inj hm
        rw [hc, committed_setTouched]

theorem table?_changed {t' : Table} (ht : s.committed.table? Interactive.table = some t)
    (hschema : t'.schema = t.schema) :
    (s.committed.setTable t').table? Interactive.table = some t' := by
  have hname : Text.sameName t.schema.table Interactive.table = true :=
    List.find?_some (p := fun u : Table => Text.sameName u.schema.table Interactive.table) ht
  rw [Contents.table?_setTable (hschema ▸ Contents.table?_self ht) (by rw [hschema]),
    hschema, if_pos hname]

/-- A row that is written stands where its id and its object stood before. -/
theorem exec_upsert {f : Fixer} {r : Row} (ht : s.table? = some t)
    (hs : t.schema = Interactive.schema) (hf : f.columns = Interactive.columns)
    (hk : t.schema.read r Source.idName = .int r.number) (hr : r.Fits t.schema)
    (h : s.exec none f.upsertStatement r.values = (s', .ok n)) :
    s'.table? = some { t with rows := t.replaced r } := by
  have hnames : f.names = wholeRow := by rw [Fixer.names, hf, wholeRow]
  unfold Store.exec at h
  split at h
  · cases h
  · have hm := modify_ok h
    have hfound : s.committed.table? Fixer.tableName.text = some t := ht
    simp only [Fixer.upsertStatement, Contents.modify, hnames, hfound,
      Table.insert_row hs hk hr] at hm
    obtain ⟨_, hc⟩ := Prod.mk.inj (Except.ok.inj hm)
    rw [Store.table?, ← hc]
    exact table?_changed ht rfl

theorem exec_delete (ht : s.table? = some t) (hk : t.Keyed) {i : Int}
    (h : s.exec none Fixer.deleteStatement [.int i] = (s', .ok n)) :
    s'.table? = some { t with rows := t.rows.filter (·.number ≠ i) } := by
  unfold Store.exec at h
  split at h
  · cases h
  · have hm := modify_ok h
    have hfound : s.committed.table? Fixer.tableName.text = some t := ht
    simp only [Fixer.deleteStatement, Contents.modify, hfound] at hm
    obtain ⟨_, hc⟩ := Prod.mk.inj (Except.ok.inj hm)
    have hrows : t.delete (some (.bare "id")) [.int i] =
        ((t.delete (some (.bare "id")) [.int i]).1,
          { t with rows := t.rows.filter (·.number ≠ i) }) := by
      refine Prod.ext rfl (congrArg (fun rows => ({ t with rows := rows } : Table)) ?_)
      refine List.filter_congr fun r hr => ?_
      have hchosen : t.schema.equals r (.bare "id") (.int i) = decide (r.number = i) :=
        hk.equals hr i
      simp only [Table.isChosen, List.getLast?_singleton, Option.getD_some, hchosen]
      simp
    rw [Store.table?, ← hc, hrows]
    exact table?_changed ht rfl

end Executing

section Reading
variable {t : Table} {r : Row}

theorem read_wholeRow (hs : t.schema = Interactive.schema) (hr : r.Fits t.schema) :
    wholeRow.map (t.schema.read r) = r.values := by
  have hplaces : ∀ i (hi : i < wholeRow.length),
    Interactive.schema.place? wholeRow[i].text = some i := by
    decide
  have hlength : r.values.length = wholeRow.length := by
    rw [hr.whole, hs]
    rfl
  apply List.ext_getElem (by rw [List.length_map, hlength])
  intro i hi hlt
  rw [List.length_map] at hi
  rw [List.getElem_map, Schema.read, hs, hplaces i hi]
  simp [Row.value, hlt]

theorem Table.Standard.read (ht : t.Standard) {s : Store} (hs : s.table? = some t) {f : Fixer}
    (hf : f.columns = Interactive.columns) (i : Int) :
    f.read s i = .ok ((t.row? i).map (·.values)) := by
  have hnames : f.names = wholeRow := by rw [Fixer.names, hf, wholeRow]
  have hid : (t.schema.place? (Name.bare "id").text).isSome := ht.keyed.idName_place
  have hnamed : ∀ c, .column c ∈ Selection.pieces ⟨.columns wholeRow, Fixer.tableName,
      some (.equals (.bare "id")), [], .none⟩ → (t.schema.place? c.text).isSome ∨ c.isQuoted := by
    simp [Selection.pieces, Condition.pieces, commas, wholeRow, Interactive.columns,
      List.intersperse, Name.quoted, hid]
  have hquery := query_select hs ⟨.columns wholeRow, Fixer.tableName,
    some (.equals (.bare "id")), [], .none⟩ [.int i] rfl hnamed rfl
  rw [t.select_eq (by simp) rfl] at hquery
  change _ = Except.ok (t.shown _ (t.picked ⟨.columns wholeRow, Source.tableName,
    some (.equals Source.idName), [], .none⟩ [.int i] none)) at hquery
  rw [ht.keyed.picked_equals] at hquery
  have hhead : (t.rows.filter (·.number = i)).head? = t.row? i := List.head?_filter
  simp only [Fixer.read, Fixer.selectStatement, hnames, hquery, Table.shown, List.head?_map, hhead]
  cases hr : t.row? i with
  | none => rfl
  | some r =>
    have hin := (ht.keyed.row?_eq_some.1 hr).1
    rw [Option.map_some, Option.map_some, read_wholeRow ht.schema (ht.fits r hin)]

end Reading

/-- A table in which the row under an id is what it is in a base table. -/
def Table.repaired (t base : Table) (i : Int) : Table :=
  { t with rows := match base.row? i with
      | some r => t.replaced r
      | none => t.rows.filter (·.number ≠ i) }

section Repairing
variable {t base : Table} (ht : t.Standard) (hb : base.Standard) {i : Int}

theorem mem_repaired {x : Row} (hx : x ∈ (t.repaired base i).rows) :
    x ∈ t.rows ∨ x ∈ base.rows := by
  rw [Table.repaired] at hx
  cases hr : base.row? i with
  | none =>
    rw [hr] at hx
    exact .inl (List.mem_filter.1 hx).1
  | some r =>
    rw [hr] at hx
    rcases mem_insertRow.1 hx with rfl | hx
    · exact .inr (List.mem_of_find?_eq_some hr)
    · exact .inl (List.mem_filter.1 hx).1

include ht hb

theorem Table.Standard.repaired : (t.repaired base i).Standard := by
  have hsame : base.schema = t.schema := hb.schema.trans ht.schema.symm
  refine ⟨ht.schema, ?_, ?_⟩
  · rw [Table.repaired]
    cases hr : base.row? i with
    | none => exact ht.keyed.sublist List.filter_sublist
    | some r =>
      have hin := (hb.keyed.row?_eq_some.1 hr).1
      refine ht.keyed.insertRow List.filter_sublist (hsame ▸ hb.keyed.number r hin) ?_
      intro x hx
      have hfree : Table.collidesWith t.schema r x = false := by
        simpa using (List.mem_filter.1 hx).2
      exact ht.keyed.number_ne (Bool.or_eq_false_iff.1 hfree).1
  · intro x hx
    rcases mem_repaired hx with hx | hx
    · exact ht.fits x hx
    · exact hsame ▸ hb.fits x hx

/-- What a fixer writes is a repair, where no statement fails. -/
theorem Table.Standard.write {s s' : Store} (hs : s.table? = some t) {f : Fixer}
    (hf : f.columns = Interactive.columns)
    (h : f.write s i ((base.row? i).map (·.values)) = (s', .ok ())) :
    s'.table? = some (t.repaired base i) := by
  have hsame : base.schema = t.schema := hb.schema.trans ht.schema.symm
  have hdone : ∀ (x : Store × Except Fault Nat), (x.1, (x.2.mapError Error.store).map fun _ => ()) =
      (s', .ok ()) → ∃ n, x = (s', .ok n) := by
    rintro ⟨s₁, r⟩ hx
    obtain ⟨rfl, hr⟩ := Prod.mk.inj hx
    cases r with
    | error e => cases hr
    | ok n => exact ⟨n, rfl⟩
  cases hr : base.row? i with
  | none =>
    rw [hr] at h
    obtain ⟨n, hn⟩ := hdone _ h
    rw [exec_delete hs ht.keyed hn, Table.repaired, hr]
  | some r =>
    rw [hr] at h
    obtain ⟨n, hn⟩ := hdone _ h
    have hin := (hb.keyed.row?_eq_some.1 hr).1
    rw [exec_upsert hs ht.schema hf (hsame ▸ hb.keyed.number r hin) (hsame ▸ hb.fits r hin) hn,
      Table.repaired, hr]

theorem row?_repaired_self : (t.repaired base i).row? i = base.row? i := by
  have hk := (ht.repaired hb (i := i)).keyed
  cases hr : base.row? i with
  | some r =>
    refine hk.row?_eq_some.2 ⟨?_, (hb.keyed.row?_eq_some.1 hr).2⟩
    rw [Table.repaired, hr]
    exact mem_insertRow.2 (.inl rfl)
  | none =>
    rw [Table.row?, List.find?_eq_none]
    intro x hx
    rw [Table.repaired, hr] at hx
    simpa using (List.mem_filter.1 hx).2

/-- An id that agrees stays in agreement, whichever id is repaired. -/
theorem row?_repaired (hu : base.Unique) {j : Int} (hj : t.row? j = base.row? j) :
    (t.repaired base i).row? j = base.row? j := by
  have hk := (ht.repaired hb (i := i)).keyed
  have hsame : base.schema = t.schema := hb.schema.trans ht.schema.symm
  by_cases hij : j = i
  · rw [hij]
    exact row?_repaired_self ht hb
  · ext x
    rw [hk.row?_eq_some]
    constructor
    · rintro ⟨hx, hid⟩
      cases hr : base.row? i with
      | none =>
        rw [Table.repaired, hr] at hx
        rw [← hj, ht.keyed.row?_eq_some]
        exact ⟨(List.mem_filter.1 hx).1, hid⟩
      | some r =>
        rw [Table.repaired, hr] at hx
        rcases mem_insertRow.1 hx with rfl | hx
        · exact absurd ((hid.symm.trans (hb.keyed.row?_eq_some.1 hr).2)) hij
        · rw [← hj, ht.keyed.row?_eq_some]
          exact ⟨(List.mem_filter.1 hx).1, hid⟩
    · intro hx
      obtain ⟨hin, hid⟩ := ht.keyed.row?_eq_some.1 (hj.trans hx)
      refine ⟨?_, hid⟩
      cases hr : base.row? i with
      | none =>
        rw [Table.repaired, hr]
        exact List.mem_filter.2 ⟨hin, by simpa [hid] using hij⟩
      | some r =>
        obtain ⟨hrin, hrid⟩ := hb.keyed.row?_eq_some.1 hr
        have hxin := (hb.keyed.row?_eq_some.1 hx).1
        have hne : r ≠ x := by
          rintro rfl
          exact hij (hid.symm.trans hrid)
        have hkey : Table.sameKey t.schema r x = false := by
          have : r.number ≠ x.number := fun h => hij (hid.symm.trans (h.symm.trans hrid))
          simp [Table.sameKey, this]
        have hothers : (t.schema.uniques.any fun u => Table.collide u r x) = false := by
          rw [← hsame, Bool.eq_false_iff]
          exact fun h => hne (hu r hrin x hxin h)
        rw [Table.repaired, hr]
        refine mem_insertRow.2 (.inr (List.mem_filter.2 ⟨hin, ?_⟩))
        simp [Table.collidesWith, hkey, hothers]

end Repairing

end DualWrite.Store

namespace DualWrite
open Store

/-- A fixer of a table as it is made knows all its columns. -/
theorem Fixer.make_standard (base target : Direction) {s : Store} {t : Table}
    (hs : s.table? = some t)
    (ht : t.schema = Interactive.schema) :
    Fixer.make base target s = .ok ⟨base, target, Interactive.columns⟩ := by
  have hfound : s.committed.table? Interactive.table = some t := hs
  have hnames : s.columnNames Interactive.table = .ok Interactive.columns := by
    simp only [Store.columnNames, hfound, ht]
    rfl
  rw [Fixer.make, hnames]
  rfl

end DualWrite
