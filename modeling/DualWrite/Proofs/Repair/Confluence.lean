import DualWrite.Proofs.Repair.Fixing
import DualWrite.Proofs.Validation.Scene
import DualWrite.Session.Basic

/-!
# Repairs in any order

What a run of fixes leaves in the target can be read off the set of the ids that were fixed: the
rows of the base under these ids, and of the target's own rows those that are neither under such an
id nor about the object of a row that was put in. So order and repetition do not matter.
-/
namespace DualWrite

namespace Store

/-- Two rows are about one object, as the unique columns of the entity table see it. -/
def Row.sameObject (a b : Row) : Bool :=
  [Name.bare "biz_id", .bare "biz"].all fun n =>
    (Interactive.schema.read a n).equals (Interactive.schema.read b n)

theorem any_collide (a b : Row) :
    (Interactive.schema.uniques.any fun u => Table.collide u a b) = a.sameObject b := by
  have hid : Interactive.schema.place? (Name.bare "biz_id").text = some 1 := by decide
  have hbiz : Interactive.schema.place? (Name.bare "biz").text = some 2 := by decide
  have huniques : Interactive.schema.uniques = [[1, 2]] := rfl
  simp [huniques, Row.sameObject, Schema.read, hid, hbiz, Table.collide]

/-- A table that fixing some ids may leave of a target. -/
structure Table.Mended (base target : Table) (ids : List Int) (t : Table) : Prop where
  standard : t.Standard
  indices : t.indices = target.indices
  rows : ∀ r, r ∈ t.rows ↔ r ∈ base.rows ∧ r.number ∈ ids ∨
    r ∈ target.rows ∧ r.number ∉ ids ∧ ∀ b ∈ base.rows, b.number ∈ ids → b.sameObject r = false

section Mending
variable {base target t : Table} {ids : List Int}

theorem collidesWith_eq_false (hs : t.schema = Interactive.schema) {a b : Row} :
    Table.collidesWith t.schema a b = false ↔ b.number ≠ a.number ∧ a.sameObject b = false := by
  have hkey : Interactive.schema.key?.isSome = true := rfl
  rw [hs, Table.collidesWith, Bool.or_eq_false_iff, any_collide, Table.sameKey, hkey, Bool.true_and,
    decide_eq_false_iff_not, eq_comm]

/-- A repair puts in the base's row of its id and keeps what has another id and another object. -/
theorem mem_repaired_iff (ht : t.Standard) (hb : base.Standard) {i : Int} {x : Row} :
    x ∈ (t.repaired base i).rows ↔ x ∈ base.rows ∧ x.number = i ∨
      x ∈ t.rows ∧ x.number ≠ i ∧ ∀ b ∈ base.rows, b.number = i → b.sameObject x = false := by
  rw [Table.repaired]
  cases hr : base.row? i with
  | none =>
    have hnone : ∀ b ∈ base.rows, b.number ≠ i := by
      intro b hin hid
      rw [hb.keyed.row?_eq_some.2 ⟨hin, hid⟩] at hr
      cases hr
    rw [List.mem_filter, decide_eq_true_eq]
    constructor
    · rintro ⟨hx, hid⟩
      exact .inr ⟨hx, hid, fun b hin h => absurd h (hnone b hin)⟩
    · rintro (⟨hx, hid⟩ | ⟨hx, hid, _⟩)
      · exact absurd hid (hnone x hx)
      · exact ⟨hx, hid⟩
  | some r =>
    obtain ⟨hin, hid⟩ := hb.keyed.row?_eq_some.1 hr
    have honly : ∀ b ∈ base.rows, b.number = i → b = r := fun b hb' h =>
      Option.some.inj ((hb.keyed.row?_eq_some.2 ⟨hb', h⟩).symm.trans hr)
    change x ∈ t.replaced r ↔ _
    rw [Table.replaced, mem_insertRow, List.mem_filter, Bool.not_eq_true',
      collidesWith_eq_false ht.schema, hid]
    constructor
    · rintro (rfl | ⟨hx, hne, hobject⟩)
      · exact .inl ⟨hin, hid⟩
      · exact .inr ⟨hx, hne, fun b hb' h => honly b hb' h ▸ hobject⟩
    · rintro (⟨hx, h⟩ | ⟨hx, hne, hobject⟩)
      · exact .inl (honly x hx h)
      · exact .inr ⟨hx, hne, hobject r hin hid⟩

theorem sameObject_eq_false (hb : base.Standard) (hu : base.Unique) {a b : Row} (ha : a ∈ base.rows)
    (hin : b ∈ base.rows) (hne : a.number ≠ b.number) : a.sameObject b = false := by
  by_contra hsame
  rw [Bool.not_eq_false, ← any_collide, ← hb.schema] at hsame
  exact hne (congrArg Row.number (hu a ha b hin hsame))

theorem Table.Standard.mended (ht : target.Standard) : Table.Mended base target [] target where
  standard := ht
  indices := rfl
  rows := by simp

theorem Table.Mended.repaired (h : Table.Mended base target ids t) (hb : base.Standard)
    (hu : base.Unique) (i : Int) : Table.Mended base target (ids ++ [i]) (t.repaired base i) where
  standard := h.standard.repaired hb
  indices := h.indices
  rows := by
    intro x
    have hstay : x ∈ base.rows → ∀ b ∈ base.rows, b.number ≠ x.number → b.sameObject x = false :=
      fun hx b hin hne => sameObject_eq_false hb hu hin hx hne
    rw [mem_repaired_iff h.standard hb, h.rows]
    simp only [List.mem_append, List.mem_singleton]
    grind

theorem Table.Mended.unique {more : List Int} {t' : Table} (h : Table.Mended base target ids t)
    (h' : Table.Mended base target more t') (hsame : ∀ i, i ∈ more ↔ i ∈ ids) : t' = t := by
  have hrows : t'.rows = t.rows := by
    apply eq_of_ascending h'.standard.keyed.ascending h.standard.keyed.ascending
    intro r
    rw [h.rows, h'.rows]
    simp only [hsame]
  have hschema : t'.schema = t.schema := h'.standard.schema.trans h.standard.schema.symm
  have hindices : t'.indices = t.indices := h'.indices.trans h.indices.symm
  cases t
  cases t'
  simp_all

/-- The ids that were fixed agree, and those that agreed before still do. -/
theorem Table.Mended.row?_eq (h : Table.Mended base target ids t) (ht : target.Standard)
    (hb : base.Standard) (hu : base.Unique) {i : Int} (hi : i ∈ ids ∨ target.row? i = base.row? i) :
    t.row? i = base.row? i := by
  have hagree : i ∉ ids → ∀ r, r ∈ target.rows ∧ r.number = i ↔ r ∈ base.rows ∧ r.number = i := by
    intro hnot r
    rw [← ht.keyed.row?_eq_some, ← hb.keyed.row?_eq_some, hi.resolve_left hnot]
  ext r
  rw [h.standard.keyed.row?_eq_some, hb.keyed.row?_eq_some, h.rows]
  constructor
  · rintro ⟨⟨hin, _⟩ | ⟨hin, hnot, _⟩, hid⟩
    · exact ⟨hin, hid⟩
    · exact (hagree (hid ▸ hnot) r).1 ⟨hin, hid⟩
  · rintro ⟨hin, hid⟩
    refine ⟨?_, hid⟩
    by_cases hmem : i ∈ ids
    · exact .inl ⟨hin, hid ▸ hmem⟩
    · refine .inr ⟨((hagree hmem r).2 ⟨hin, hid⟩).1, hid ▸ hmem, ?_⟩
      intro b hb' hfixed
      apply sameObject_eq_false hb hu hb' hin
      rintro hsame
      exact hmem (hid ▸ hsame ▸ hfixed)

end Mending
end Store

open Store

namespace Session

def fixAll (f : Fixer) : Session → List Int → Except Error Session
  | s, [] => .ok s
  | s, i :: ids =>
    match s.fix f i with
    | (s', .ok ()) => fixAll f s' ids
    | (_, .error e) => .error e

section Fixing
variable {s s' : Session} {d : Direction} {f : Fixer} {base target t : Table} {ids : List Int}

/-- A fix that does not fail leaves the base alone and repairs the target. -/
theorem fix_ok (hf : f = ⟨d, d.other, Interactive.columns⟩)
    (hbase : (s.world.store d).table? = some base) (hb : base.Standard)
    (htarget : (s.world.store d.other).table? = some t) (ht : t.Standard) {i : Int}
    (h : s.fix f i = (s', .ok ())) :
    s'.world.store d = s.world.store d ∧
      (s'.world.store d.other).table? = some (t.repaired base i) := by
  subst hf
  rw [fix, hb.read hbase rfl] at h
  obtain ⟨rfl, hdone⟩ := Prod.mk.inj h
  rw [World.store_setStore, World.store_setStore, if_neg d.ne_other, if_pos rfl]
  exact ⟨rfl, ht.write hb htarget rfl (Prod.ext rfl hdone)⟩

/-- A run of fixes, after some that were made before. -/
theorem fixAll_mended (hf : f = ⟨d, d.other, Interactive.columns⟩)
    (hbase : (s.world.store d).table? = some base) (hb : base.Standard) (hu : base.Unique)
    (htarget : (s.world.store d.other).table? = some t) {before : List Int}
    (ht : Table.Mended base target before t) (h : s.fixAll f ids = .ok s') :
    s'.world.store d = s.world.store d ∧ ∃ t', (s'.world.store d.other).table? = some t' ∧
      Table.Mended base target (before ++ ids) t' := by
  induction ids generalizing s t before with
  | nil =>
    obtain rfl := Except.ok.inj h
    exact ⟨rfl, t, htarget, by rwa [List.append_nil]⟩
  | cons i ids ih =>
    rw [fixAll] at h
    split at h
    · next s₁ hfix =>
      obtain ⟨hstore, hrepaired⟩ := fix_ok hf hbase hb htarget ht.standard hfix
      obtain ⟨hsame, t', ht', hmended⟩ := ih (hstore ▸ hbase) hrepaired (ht.repaired hb hu i) h
      refine ⟨hsame.trans hstore, t', ht', ?_⟩
      rwa [List.append_assoc] at hmended
    · cases h

end Fixing
end Session

/-- Fixes that do not fail leave the base as it is, and in the target the base's rows of the fixed
ids and those rows of its own that have other ids and are about other objects: whatever the order of
the fixes and however often each was made. An id that agreed before agrees afterwards. -/
theorem fixes_meet_in_one_table {s s' : Session} {d : Direction} {f : Fixer} {ids : List Int}
    {base target : Table} (hmade : Fixer.make d d.other (s.world.store d) = .ok f)
    (hbase : (s.world.store d).table? = some base) (hstandard : base.Standard)
    (hunique : base.Unique) (htarget : (s.world.store d.other).table? = some target)
    (htstandard : target.Standard) (hfixed : s.fixAll f ids = .ok s') :
    s'.world.store d = s.world.store d ∧ ∃ t, (s'.world.store d.other).table? = some t ∧
      t.rows.Pairwise (·.number < ·.number) ∧
      (∀ r, r ∈ t.rows ↔ r ∈ base.rows ∧ r.number ∈ ids ∨ r ∈ target.rows ∧ r.number ∉ ids ∧
        ∀ b ∈ base.rows, b.number ∈ ids → b.sameObject r = false) ∧
      (∀ i, target.row? i = base.row? i → t.row? i = base.row? i) ∧
      ∀ more s'', (∀ i, i ∈ more ↔ i ∈ ids) → s.fixAll f more = .ok s'' →
        (s''.world.store d.other).table? = some t := by
  have hf : f = ⟨d, d.other, Interactive.columns⟩ := by
    rw [Fixer.make_standard d d.other hbase hstandard.schema] at hmade
    exact (Except.ok.inj hmade).symm
  have hrun : ∀ {ids s'}, s.fixAll f ids = .ok s' → s'.world.store d = s.world.store d ∧
      ∃ t, (s'.world.store d.other).table? = some t ∧ Table.Mended base target ids t :=
    fun h => Session.fixAll_mended hf hbase hstandard hunique htarget htstandard.mended h
  obtain ⟨hstore, t, ht, hmended⟩ := hrun hfixed
  refine ⟨hstore, t, ht, hmended.standard.keyed.ascending, hmended.rows,
    fun i hi => hmended.row?_eq htstandard hstandard hunique (.inr hi), ?_⟩
  intro more s'' hsame hmore
  obtain ⟨_, t', ht', hmended'⟩ := hrun hmore
  rw [ht', hmended.unique hmended' hsame]

/-- Two rows that have swapped their objects are set right by three fixes; the third row, which the
base holds as well, stays. One column of numbers holds a text. -/
theorem fixes_of_swapped_objects :
    let row (id object : Int) (readCnt : Value) : Row :=
      ⟨id, [.int id, .int object, .text "b", readCnt, .int 0, .int 0, .int 1, .int 1]⟩
    let table (rows : List Row) : Table := ⟨Interactive.schema, rows, []⟩
    let store (name : String) (rows : List Row) : Store := ⟨name, ⟨[table rows]⟩, none, [], [], 0⟩
    let src := [row 1 10 (.text "many"), row 2 20 (.int 5), row 3 30 (.int 0)]
    let dst := [row 1 20 (.int 7), row 2 10 (.int 8), row 3 30 (.int 0)]
    let s : Session := ⟨World.ofStores (store "src" src) (store "dst" dst), [], [], [],
      [], [], [], 0⟩
    let f : Fixer := ⟨.src, .dst, Interactive.columns⟩
    ∃ s' t, s.fixAll f [1, 2, 1] = .ok s' ∧ (s'.world.store .dst).table? = some t ∧ t.rows = src ∧
      ∀ more s'', (∀ i, i ∈ more ↔ i ∈ [1, 2, 1]) → s.fixAll f more = .ok s'' →
        (s''.world.store .dst).table? = some t := by
  intro row table store src dst s f
  obtain ⟨s', hfixed⟩ : ∃ s', s.fixAll f [1, 2, 1] = .ok s' := by
    have hok : (s.fixAll f [1, 2, 1]).isOk = true := by decide +kernel
    cases h : s.fixAll f [1, 2, 1] with
    | ok s' => exact ⟨s', rfl⟩
    | error e => simp [h, Except.isOk, Except.toBool] at hok
  have hmade : Fixer.make .src .dst (s.world.store .src) = .ok f := by decide +kernel
  have hbase : (s.world.store .src).table? = some (table src) := by decide +kernel
  have htarget : (s.world.store .dst).table? = some (table dst) := by decide +kernel
  obtain ⟨_, t, ht, _, _, _, hsame⟩ := fixes_meet_in_one_table hmade hbase (by decide +kernel)
    (by decide +kernel) htarget (by decide +kernel) hfixed
  change (s'.world.store .dst).table? = some t at ht
  have hrows : ((s.fixAll f [1, 2, 1]).toOption.bind fun s => (s.world.store .dst).table?).map
      (·.rows) = some src := by decide +kernel
  simp only [hfixed, Except.toOption, Option.bind_some, ht, Option.map_some,
    Option.some.injEq] at hrows
  exact ⟨s', t, hfixed, ht, hrows, hsame⟩

end DualWrite
