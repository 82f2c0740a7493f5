import DualWrite.Proofs.Store.Entities

/-!
# Stores whose rows can all be read

Where every row of a keyed table can be read as an entity, a store is the list of its entities in
the order of their ids, and none of its answers fails.
-/
namespace DualWrite

theorem Interactive.find?_eq_some {es : List Interactive} (h : (es.map (·.id)).Nodup) {i : Int}
    {e : Interactive} : es.find? (·.id = i) = some e ↔ e ∈ es ∧ e.id = i := by
  constructor
  · intro he
    exact ⟨List.mem_of_find?_eq_some he, by simpa using List.find?_some he⟩
  · rintro ⟨he, rfl⟩
    obtain ⟨x, hx⟩ := Option.isSome_iff_exists.1
      (List.find?_isSome.2 ⟨e, he, by simp⟩ : (es.find? (·.id = e.id)).isSome)
    have hxe : x.id = e.id := by simpa using List.find?_some hx
    exact List.inj_on_of_nodup_map h (List.mem_of_find?_eq_some hx) he hxe ▸ hx

namespace Store

/-- A keyed store whose entities are these. -/
def Holds (s : Store) (es : List Interactive) : Prop :=
  ∃ t, s.table? = some t ∧ t.Keyed ∧ t.rows.mapM t.entity = .ok es

theorem Table.Keyed.stamp_eq {t : Table} (hk : t.Keyed) {r : Row} (hr : r ∈ t.rows)
    {e : Interactive} (he : t.entity r = .ok e) : t.stamp r = .ok (e.id, e.uTime) := by
  obtain ⟨k, hp, hv⟩ := Interactive.intAt_eq_ok.1 (Interactive.ofRow_eq_ok.1 he).2.2.2.2.2.2.1
  have htime : t.schema.read r Source.timeName = .int e.uTime := by
    rw [Schema.read, show t.schema.place? Source.timeName.text = some k from hp]
    exact hv
  rw [Table.stamp, htime, hk.id_of_entity hr he]

namespace Holds
variable {s : Store} {es : List Interactive} (h : s.Holds es)
include h

theorem keyed : s.Keyed := by
  obtain ⟨t, ht, hk, _⟩ := h
  exact ⟨t, ht, hk⟩

theorem ascending : (es.map (·.id)).Pairwise (· < ·) := by
  obtain ⟨t, _, hk, hes⟩ := h
  rw [map_of_mapM hes fun r hr e he => hk.id_of_entity hr he]
  exact List.pairwise_map.2 hk.ascending

theorem nodup : (es.map (·.id)).Nodup := h.ascending.imp Int.ne_of_lt

omit h in
theorem unique {es' : List Interactive} (h : s.Holds es) (h' : s.Holds es') : es = es' := by
  obtain ⟨t, ht, _, hes⟩ := h
  obtain ⟨t', ht', _, hes'⟩ := h'
  obtain rfl := Option.some.inj (ht.symm.trans ht')
  exact Except.ok.inj (hes.symm.trans hes')

theorem entity?_eq (i : Int) : s.entity? i = (es.find? (·.id = i)).map .ok := by
  have hfind := fun e => Interactive.find?_eq_some h.nodup (i := i) (e := e)
  obtain ⟨t, ht, hk, hes⟩ := h
  rw [Store.entity?_eq ht]
  cases hr : t.row? i with
  | some r =>
    obtain ⟨hin, rfl⟩ := hk.row?_eq_some.1 hr
    obtain ⟨e, he, her⟩ := ok_of_mapM hes hin
    rw [(hfind e).2 ⟨he, hk.id_of_entity hin her⟩, Option.map_some, Option.map_some, her]
  | none =>
    cases he : es.find? (·.id = i) with
    | none => rfl
    | some e =>
      obtain ⟨hin, rfl⟩ := (hfind e).1 he
      obtain ⟨r, hr', her⟩ := exists_of_mapM hes hin
      rw [hk.id_of_entity hr' her, hk.row?_eq_some.2 ⟨hr', rfl⟩] at hr
      cases hr

theorem find (i : Int) : ∃ r, (Source.ofStore s).find i = .ok r := by
  obtain ⟨t, ht, hk, hes⟩ := h
  rw [ofStore_find ht hk]
  cases hr : t.row? i with
  | none => exact ⟨none, rfl⟩
  | some r =>
    obtain ⟨e, _, he⟩ := ok_of_mapM hes (hk.row?_eq_some.1 hr).1
    exact ⟨some e, by simp [he, Functor.map, Except.map]⟩

theorem present (ids : List Int) : ∃ found, (Source.ofStore s).present ids = .ok found := by
  obtain ⟨t, ht, hk, _⟩ := h
  exact ⟨_, ofStore_present ht hk ids⟩

end Holds
end Store

namespace Interactive

/-- An entity about an object of its own, read so many times. -/
def plain (id readCnt : Int) : Interactive := ⟨id, id, "b", readCnt, 0, 0, 1, 1⟩

def row (e : Interactive) : Store.Row := ⟨e.id, e.values⟩

theorem ofRow_values (e : Interactive) : ofRow schema.names e.values = .ok e := by
  rw [ofRow_eq_ok]
  refine ⟨?_, ?_, ?_, ?_, ?_, ?_, ?_, ?_⟩ <;> rfl

theorem place_id : schema.place? "id" = some 0 := by decide

end Interactive

namespace Store

def Table.ofEntities (es : List Interactive) : Table :=
  ⟨Interactive.schema, es.map Interactive.row, []⟩

/-- A store of nothing but entities. -/
def ofEntities (name : String) (es : List Interactive) : Store :=
  ⟨name, ⟨[.ofEntities es]⟩, none, [], [], 0⟩

theorem Table.keyed_ofEntities {es : List Interactive} (h : (es.map (·.id)).Pairwise (· < ·)) :
    (Table.ofEntities es).Keyed where
  key := ⟨rfl, Interactive.place_id⟩
  whole := by rw [show (Table.ofEntities es).schema.place? "id" = some 0 from
    Interactive.place_id]; rfl
  number := by
    intro r hr
    obtain ⟨e, _, rfl⟩ := List.mem_map.1 hr
    rfl
  ascending := List.pairwise_map.2 (List.pairwise_map.1 h)

theorem Table.entities_ofEntities (es : List Interactive) :
    (Table.ofEntities es).rows.mapM (Table.ofEntities es).entity = .ok es := by
  rw [mapM_eq_ok, Table.ofEntities, List.forall₂_map_left_iff, List.forall₂_same]
  exact fun e _ => Interactive.ofRow_values e

theorem table?_ofEntities (name : String) (es : List Interactive) :
    (ofEntities name es).table? = some (.ofEntities es) := by
  simp [Store.table?, ofEntities, Contents.table?, Table.ofEntities, Interactive.schema,
    Text.sameName]

theorem holds_ofEntities (name : String) {es : List Interactive}
    (h : (es.map (·.id)).Pairwise (· < ·)) : (ofEntities name es).Holds es :=
  ⟨.ofEntities es, table?_ofEntities name es, Table.keyed_ofEntities h,
    Table.entities_ofEntities es⟩

end Store
end DualWrite
