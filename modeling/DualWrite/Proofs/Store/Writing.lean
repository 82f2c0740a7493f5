import DualWrite.Proofs.Store.Reading

/-!
# Writes keep ids keys

Whatever a statement makes of a table whose ids are keys, they stay keys: an insert takes its row
number from the id, an update too, and neither puts two rows under one number.
-/
namespace DualWrite.Store
open DualWrite.Source

section Rows
variable {r x : Row} {rows : List Row}

theorem mem_insertRow : x ∈ Table.insertRow r rows ↔ x = r ∨ x ∈ rows := by
  induction rows with
  | nil => simp [Table.insertRow]
  | cons y ys ih =>
    rw [Table.insertRow]
    split
    · simp
    · rw [List.mem_cons, ih, List.mem_cons]
      tauto

theorem ascending_insertRow (h : rows.Pairwise (fun a b => a.number < b.number))
    (hr : ∀ y ∈ rows, y.number ≠ r.number) :
    (Table.insertRow r rows).Pairwise (fun a b => a.number < b.number) := by
  induction rows with
  | nil => simp [Table.insertRow]
  | cons y ys ih =>
    obtain ⟨hy, hys⟩ := List.pairwise_cons.1 h
    rw [Table.insertRow]
    split
    · next hlt =>
      refine List.pairwise_cons.2 ⟨?_, h⟩
      intro z hz
      rcases List.mem_cons.1 hz with rfl | hz
      · exact hlt
      · exact Int.lt_trans hlt (hy z hz)
    · next hge =>
      refine List.pairwise_cons.2 ⟨?_, ih hys fun z hz => hr z (List.mem_cons_of_mem _ hz)⟩
      intro z hz
      rcases mem_insertRow.1 hz with rfl | hz
      · have := hr y List.mem_cons_self
        omega
      · exact hy z hz

end Rows

namespace Table
variable {t t' : Table} {c : Conflict} {r : Row}

/-- The row that an insert puts: a replacing one fills in what may not be left out. -/
def written (t : Table) (c : Conflict) (r : Row) : Row :=
  if c = .replace then { r with values := filled t.schema r.values } else r

theorem sameKey_eq_false {s : Schema} {rows : List Row} (hu : uniqueFault? s rows r = none) :
    ∀ x ∈ rows, sameKey s r x = false := by
  intro x hx
  cases hkey : s.key? with
  | none => simp [sameKey, hkey]
  | some k =>
    rw [Bool.eq_false_iff]
    intro hsame
    have hany : rows.any (sameKey s r) = true := List.any_eq_true.2 ⟨x, hx, hsame⟩
    simp [uniqueFault?, hkey, hany] at hu

/-- A refused insert that does not fail leaves the table alone. -/
theorem eq_of_refused {n : Nat} {f : Fault}
    (h : (if c = .ignore then .ok (0, t) else .error ⟨f, decide (c = .rollback)⟩) =
      (.ok (n, t') : Except Refusal (Nat × Table))) : t' = t := by
  split at h
  · exact (congrArg Prod.snd (Except.ok.inj h)).symm
  · cases h

/-- An insert that does not fail leaves the table alone, or puts its row among rows with other
keys. -/
theorem put_ok {n : Nat} (hp : t.put c r = .ok (n, t')) :
    t' = t ∨ ∃ rows, rows.Sublist t.rows ∧
      (∀ x ∈ rows, sameKey t.schema (t.written c r) x = false) ∧
      t' = { t with rows := Table.insertRow (t.written c r) rows } := by
  have hwritten : (if c = .replace then { r with values := filled t.schema r.values } else r) =
      t.written c r := rfl
  simp only [put, hwritten] at hp
  split at hp
  · exact .inl (eq_of_refused hp)
  · exact .inl (eq_of_refused hp)
  · split at hp
    · refine .inr ⟨_, List.filter_sublist, ?_, (congrArg Prod.snd (Except.ok.inj hp)).symm⟩
      intro x hx
      simp_all [collidesWith]
    · exact .inl (eq_of_refused hp)
  · next hu =>
    exact .inr ⟨_, List.Sublist.refl _, sameKey_eq_false hu,
      (congrArg Prod.snd (Except.ok.inj hp)).symm⟩

theorem insert_schema {columns : List Name} {args : List Value} {n : Nat}
    (hi : t.insert c columns args = .ok (n, t')) : t'.schema = t.schema := by
  rw [insert] at hi
  split at hi
  · cases hi
  · rcases put_ok hi with rfl | ⟨_, _, _, rfl⟩ <;> rfl

theorem updateRow_schema {sets : List (Name × Assigned)} {args : List Value}
    (hu : t.updateRow sets args r = .ok t') : t'.schema = t.schema := by
  simp only [updateRow] at hu
  split at hu
  · cases hu
  · split at hu <;> cases hu
    rfl

theorem updateRows_schema {sets : List (Name × Assigned)} {args : List Value} {rs : List Row}
    (hu : updateRows sets args t rs = .ok t') : t'.schema = t.schema := by
  induction rs generalizing t with
  | nil => rw [← Except.ok.inj hu]
  | cons r rs ih =>
    rw [updateRows] at hu
    split at hu
    · cases hu
    · next h₁ => exact (ih hu).trans (updateRow_schema h₁)

theorem update_schema {sets : List (Name × Assigned)} {whose : Option Name} {args : List Value}
    {n : Nat} (hu : t.update sets whose args = .ok (n, t')) : t'.schema = t.schema := by
  simp only [update] at hu
  split at hu
  · cases hu
  · next h₁ =>
    obtain rfl := congrArg Prod.snd (Except.ok.inj hu)
    exact updateRows_schema h₁

end Table

namespace Table.Keyed
variable {t : Table} (h : t.Keyed)
include h

theorem of_rows {rows : List Row} (hnumber : ∀ r ∈ rows, t.schema.read r idName = .int r.number)
    (hascending : rows.Pairwise (fun a b => a.number < b.number)) :
    Table.Keyed { t with rows := rows } :=
  ⟨h.key, h.whole, hnumber, hascending⟩

theorem sublist {rows : List Row} (hrows : rows.Sublist t.rows) :
    Table.Keyed { t with rows := rows } :=
  h.of_rows (fun r hr => h.number r (hrows.subset hr)) (h.ascending.sublist hrows)

theorem insertRow {rows : List Row} (hrows : rows.Sublist t.rows) {r : Row}
    (hr : t.schema.read r idName = .int r.number) (hnew : ∀ x ∈ rows, x.number ≠ r.number) :
    Table.Keyed { t with rows := Table.insertRow r rows } := by
  refine h.of_rows ?_ (ascending_insertRow (h.ascending.sublist hrows) hnew)
  intro x hx
  rcases mem_insertRow.1 hx with rfl | hx
  · exact hr
  · exact h.number x (hrows.subset hx)

theorem rowOf_number {values : List Value} {fresh : Option Int} {current : Int} {r : Row}
    (hl : fresh.isSome → values.length = t.schema.columns.length)
    (hr : Table.rowOf t.schema values fresh current = .ok r) :
    t.schema.read r idName = .int r.number := by
  obtain ⟨k, hkey, hplace, hk⟩ := h.place
  simp only [Table.rowOf, hkey] at hr
  rw [Schema.read, hplace]
  split at hr
  · next n _ hn =>
    obtain rfl := Except.ok.inj hr
    exact hn
  · next n hn =>
    obtain rfl := Except.ok.inj hr
    have hlt : k < values.length := hl rfl ▸ hk
    simp [Row.value, hlt]
  · cases hr

theorem written_number {c : Conflict} {r : Row} (hr : t.schema.read r idName = .int r.number) :
    t.schema.read (t.written c r) idName = .int (t.written c r).number := by
  rw [Table.written]
  split
  · obtain ⟨k, _, hplace, hk⟩ := h.place
    have hvalue : r.value k = .int r.number := by simpa [Schema.read, hplace] using hr
    have hlt : k < r.values.length := by
      by_contra hge
      simp [Row.value, List.getElem?_eq_none (Nat.le_of_not_lt hge)] at hvalue
    have hget : r.values[k] = .int r.number := by simpa [Row.value, hlt] using hvalue
    have hfilled : (Table.filled t.schema r.values)[k]? = some (.int r.number) := by
      rw [Table.filled, List.getElem?_zipWith, List.getElem?_eq_getElem hk,
        List.getElem?_eq_getElem hlt, hget]
      rfl
    simp [Schema.read, hplace, Row.value, hfilled]
  · exact hr

theorem number_ne {r x : Row} (hx : Table.sameKey t.schema r x = false) : x.number ≠ r.number := by
  obtain ⟨k, hkey, _⟩ := h.place
  intro he
  simp [Table.sameKey, hkey, he] at hx

theorem put {c : Conflict} {r : Row} {n : Nat} {t' : Table}
    (hr : t.schema.read r idName = .int r.number) (hp : t.put c r = .ok (n, t')) : t'.Keyed := by
  rcases Table.put_ok hp with rfl | ⟨rows, hrows, hkeys, rfl⟩
  · exact h
  · exact h.insertRow hrows (h.written_number hr) fun x hx => h.number_ne (hkeys x hx)

theorem insert {c : Conflict} {columns : List Name} {args : List Value} {n : Nat} {t' : Table}
    (hi : t.insert c columns args = .ok (n, t')) : t'.Keyed := by
  rw [Table.insert] at hi
  split at hi
  · cases hi
  · next r hr => exact h.put (h.rowOf_number (fun _ => by simp [Table.given]) hr) hi

theorem updateRow {sets : List (Name × Assigned)} {args : List Value} {r : Row} {t' : Table}
    (hu : t.updateRow sets args r = .ok t') : t'.Keyed := by
  simp only [Table.updateRow] at hu
  split at hu
  · cases hu
  · next r' hr =>
    split at hu <;> cases hu
    next hunique =>
    exact h.insertRow List.filter_sublist (h.rowOf_number (by simp) hr)
      fun x hx => h.number_ne (Table.sameKey_eq_false hunique x hx)

theorem updateRows {sets : List (Name × Assigned)} {args : List Value} {rs : List Row} {t' : Table}
    (hu : Table.updateRows sets args t rs = .ok t') : t'.Keyed := by
  induction rs generalizing t with
  | nil => exact Except.ok.inj hu ▸ h
  | cons r rs ih =>
    rw [Table.updateRows] at hu
    split at hu
    · cases hu
    · next t₁ h₁ => exact ih (h.updateRow h₁) hu

theorem update {sets : List (Name × Assigned)} {whose : Option Name} {args : List Value} {n : Nat}
    {t' : Table} (hu : t.update sets whose args = .ok (n, t')) : t'.Keyed := by
  simp only [Table.update] at hu
  split at hu
  · cases hu
  · next h₁ =>
    obtain rfl := congrArg Prod.snd (Except.ok.inj hu)
    exact h.updateRows h₁

theorem delete (whose : Option Name) (args : List Value) : (t.delete whose args).2.Keyed :=
  h.sublist List.filter_sublist

end Table.Keyed

namespace Contents
variable {c : Contents} {t t' : Table} {name : String}

/-- A table put in the place of the one of its name is found under every name of that one. -/
theorem table?_setTable (hs : c.table? t'.schema.table = some t)
    (hn : t.schema.table = t'.schema.table) :
    (c.setTable t').table? name =
      if Text.sameName t'.schema.table name then some t' else c.table? name := by
  have hpred : ∀ u : Table, Text.sameName (if Text.sameName u.schema.table t'.schema.table then t'
      else u).schema.table name = Text.sameName u.schema.table name := by
    intro u
    split
    · next hu => rw [Text.sameName, Text.sameName, eq_of_beq hu]
    · rfl
  have hfind : (c.setTable t').table? name = (c.table? name).map fun u =>
      if Text.sameName u.schema.table t'.schema.table then t' else u := by
    simp only [table?, setTable, List.find?_map, Function.comp_def, hpred]
  rw [hfind]
  split
  · next hsame =>
    have hlower : Text.lower t'.schema.table = Text.lower name := eq_of_beq hsame
    have hthere : c.table? name = some t := by
      simpa only [table?, Text.sameName, hlower] using hs
    rw [hthere, Option.map_some, hn, if_pos (by simp [Text.sameName])]
  · next hother =>
    cases hu : c.table? name with
    | none => rfl
    | some u =>
      have hname : Text.sameName u.schema.table name = true :=
        List.find?_some (p := fun u : Table => Text.sameName u.schema.table name) hu
      have hne : ¬ Text.sameName u.schema.table t'.schema.table = true := by
        intro he
        apply hother
        rw [Text.sameName, ← eq_of_beq he]
        exact hname
      rw [Option.map_some, if_neg hne]

theorem table?_self (ht : c.table? name = some t) : c.table? t.schema.table = some t := by
  have hname : Text.sameName t.schema.table name = true :=
    List.find?_some (p := fun u : Table => Text.sameName u.schema.table name) ht
  have hlower : Text.lower t.schema.table = Text.lower name := eq_of_beq hname
  simpa only [table?, Text.sameName, hlower] using ht

/-- A change of one table that keeps its schema is seen under the names of that table only. -/
theorem table?_change (ht : c.table? name = some t) (hs : t'.schema = t.schema) (other : String) :
    (c.setTable t').table? other = c.table? other ∨
      c.table? other = some t ∧ (c.setTable t').table? other = some t' := by
  have hself : c.table? t'.schema.table = some t := hs ▸ table?_self ht
  rw [table?_setTable hself (by rw [hs])]
  split
  · next hsame =>
    have hlower : Text.lower t'.schema.table = Text.lower other := eq_of_beq hsame
    right
    refine ⟨?_, rfl⟩
    rw [← hself]
    simp only [table?, Text.sameName, hlower]
  · exact .inl rfl

/-- A change of one table that keeps its schema and its ids as keys keeps those of the entities. -/
theorem keyed_setTable (hc : ∃ u, c.table? Interactive.table = some u ∧ u.Keyed)
    (ht : c.table? name = some t) (hs : t'.schema = t.schema) (hk : t.Keyed → t'.Keyed) :
    ∃ u, (c.setTable t').table? Interactive.table = some u ∧ u.Keyed := by
  obtain ⟨u, hu, huk⟩ := hc
  rcases table?_change ht hs Interactive.table with hsame | ⟨hbefore, hafter⟩
  · exact ⟨u, hsame.trans hu, huk⟩
  · obtain rfl := Option.some.inj (hbefore.symm.trans hu)
    exact ⟨t', hafter, hk huk⟩

theorem keyed_modify {c' : Contents} {n : Nat} {st : Statement} {args : List Value}
    (hc : ∃ u, c.table? Interactive.table = some u ∧ u.Keyed) (hm : c.modify st args =
      .ok (n, c')) :
    ∃ u, c'.table? Interactive.table = some u ∧ u.Keyed := by
  cases st
  case insert | update =>
    simp only [modify] at hm
    split at hm
    · cases hm
    · next t ht =>
      split at hm
      · cases hm
      · next t' hi =>
        obtain rfl := congrArg Prod.snd (Except.ok.inj hm)
        first
          | exact keyed_setTable hc ht (Table.insert_schema hi) fun hk => hk.insert hi
          | exact keyed_setTable hc ht (Table.update_schema hi) fun hk => hk.update hi
  case delete =>
    simp only [modify] at hm
    split at hm
    · cases hm
    · next t ht =>
      obtain rfl := congrArg Prod.snd (Except.ok.inj hm)
      exact keyed_setTable hc ht rfl fun hk => hk.delete _ args
  all_goals
    obtain rfl := congrArg Prod.snd (Except.ok.inj hm)
    exact hc

end Contents

variable {s : Store}

@[simp] theorem committed_setTouched (who : Option Ticket) (n : Nat) :
    (s.setTouched who n).committed = s.committed := by
  cases who <;> rfl

theorem Keyed.modify (h : s.Keyed) (st : Statement) (args : List Value) :
    (s.modify none st args).1.Keyed := by
  simp only [Store.modify, own?_none]
  split
  · simpa [Keyed, table?] using h
  · rcases hm : s.committed.modify st args with e | ⟨n, c⟩
    · simpa [Keyed, table?] using h
    · by_cases ho : c.hasOrphan
      · simpa [Keyed, table?, ho] using h
      · simpa [Keyed, table?, ho] using Contents.keyed_modify h hm

/-- A statement outside any transaction leaves the ids of the entity table keys. -/
theorem Keyed.exec (h : s.Keyed) (st : Statement) (args : List Value) :
    (s.exec none st args).1.Keyed := by
  simp only [Store.exec]
  split
  · exact h
  · split
    · exact h
    · simpa [commitOwn] using h
    · simpa [rollbackOwn] using h
    · exact h.modify st args

end DualWrite.Store
