import DualWrite.Proofs.Store.Incremental

/-!
# What a key has passed

The scan of a table that is written meanwhile, as a log: rows written where the key stood, pages
read, restarts. The key passes a row unread only if that row was written behind it, at the very time
it stood at, and the same cycle went on to a later time.
-/
namespace DualWrite

inductive Entry where
  /-- A row was written while the scan stood at a key. -/
  | wrote (e : Interactive) (key : Cursor)
  | read (rows : List Interactive)
  /-- A page came back empty. -/
  | restarted

abbrev Log := List Entry

namespace Log

/-- The row has been read since it was last written. -/
def ReadSince (e : Interactive) : Log → Prop
  | [] => False
  | .wrote r _ :: log => r.id ≠ e.id ∧ ReadSince e log
  | .read rows :: log => e ∈ rows ∨ ReadSince e log
  | .restarted :: log => ReadSince e log

/-- The row was last written behind the key, in the cycle that still goes on. -/
def Behind (e : Interactive) : Log → Prop
  | [] => False
  | .wrote r key :: log => r = e ∧ ¬ key.before e ∨ r.id ≠ e.id ∧ Behind e log
  | .read _ :: log => Behind e log
  | .restarted :: _ => False

/-- The row was last written behind the key, and the same cycle has read a row of a later time. -/
def Overtaken (e : Interactive) : Log → Prop
  | [] => False
  | .wrote r _ :: log => r.id ≠ e.id ∧ Overtaken e log
  | .read rows :: log => Overtaken e log ∨ Behind e log ∧ ∃ r ∈ rows, e.uTime < r.uTime
  | .restarted :: log => Overtaken e log

def times (start : List Interactive) : Log → List Int
  | [] => start.map (·.uTime)
  | .wrote e _ :: log => e.uTime :: times start log
  | _ :: log => times start log

end Log

open Log

/-- How a scan with a key stands to a row, by what has happened. -/
structure Traced (c : Cursor) (e : Interactive) (log : Log) : Prop where
  met : c.before e ∨ ReadSince e log ∨ Behind e log ∧ c.utime = e.uTime ∨ Overtaken e log
  overtaken : Overtaken e log → ¬ ReadSince e log ∧ ¬ c.before e ∧
    (c.advanced = true → e.uTime < c.utime)
  behind : Behind e log → ¬ ReadSince e log ∧ ¬ c.before e ∧ c.advanced = true

/-- Where a key can stand: at a row that was read, or behind every row of some time. -/
structure Placed (watermark : Int) (times : List Int) (c : Cursor) : Prop where
  floor : watermark ≤ c.utime
  advanced : c.advanced = true → c.utime ∈ times ∧ watermark < c.utime
  resting : c.advanced = false → c.id = maxInt ∧ (c.utime = watermark ∨ ∃ t ∈ times, c.utime < t)

section Steps
variable {c : Cursor} {e : Interactive} {log : Log} {watermark : Int} {times : List Int}

theorem restart_resting (ha : c.advanced = false) : c.restart .incremental = c := by
  simp [Cursor.restart, ha]

theorem restart_advanced (ha : c.advanced = true) (hmin : minInt < c.utime) :
    c.restart .incremental = ⟨c.utime - 1, maxInt, false⟩ := by
  have hmax : max (c.utime - 1) minInt = c.utime - 1 := by omega
  simp [Cursor.restart, ha, hmax]

theorem traced_start (hw : watermark < e.uTime) : Traced (.start .incremental watermark) e [] where
  met := .inl (.inl hw)
  overtaken := False.elim
  behind := False.elim

/-- A later write comes behind the key, unless it has the very time that the scan is inside. -/
theorem Placed.before_or_level (h : Placed watermark times c) (hw : watermark < e.uTime)
    (ht : ∀ t ∈ times, t ≤ e.uTime) :
    c.before e ∨ c.advanced = true ∧ c.utime = e.uTime := by
  cases ha : c.advanced with
  | true =>
    have hle := ht _ (h.advanced ha).1
    by_cases heq : c.utime = e.uTime
    · exact .inr ⟨rfl, heq⟩
    · exact .inl (.inl (by omega))
  | false =>
    rcases (h.resting ha).2 with heq | ⟨t, hin, hlt⟩
    · exact .inl (.inl (by omega))
    · have hle := ht t hin
      exact .inl (.inl (by omega))

theorem traced_wrote (h : Placed watermark times c) (hw : watermark < e.uTime)
    (ht : ∀ t ∈ times, t ≤ e.uTime) : Traced c e (.wrote e c :: log) := by
  have hread : ¬ ReadSince e (.wrote e c :: log) := fun h => h.1 rfl
  have hplace := h.before_or_level hw ht
  refine ⟨?_, fun h => absurd rfl h.1, ?_⟩
  · by_cases hbefore : c.before e
    · exact .inl hbefore
    · exact .inr (.inr (.inl ⟨.inl ⟨rfl, hbefore⟩, (hplace.resolve_left hbefore).2⟩))
  · rintro (⟨_, hbefore⟩ | ⟨hne, _⟩)
    · exact ⟨hread, hbefore, (hplace.resolve_left hbefore).1⟩
    · exact absurd rfl hne

theorem Traced.beside (h : Traced c e log) {r : Interactive} (hr : r.id ≠ e.id) :
    Traced c e (.wrote r c :: log) := by
  have hread : ReadSince e (.wrote r c :: log) ↔ ReadSince e log :=
    ⟨fun h => h.2, fun h => ⟨hr, h⟩⟩
  have hbehind : Behind e (.wrote r c :: log) ↔ Behind e log := by
    constructor
    · rintro (⟨rfl, _⟩ | ⟨_, h⟩)
      · exact absurd rfl hr
      · exact h
    · exact fun h => .inr ⟨hr, h⟩
  have hovertaken : Overtaken e (.wrote r c :: log) ↔ Overtaken e log :=
    ⟨fun h => h.2, fun h => ⟨hr, h⟩⟩
  constructor
  · rw [hread, hbehind, hovertaken]
    exact h.met
  · rw [hread, hovertaken]
    exact h.overtaken
  · rw [hread, hbehind]
    exact h.behind

theorem Traced.page (h : Traced c e log) (hp : Placed watermark times c) {rows : List Interactive}
    {last : Interactive} (hlast : rows.getLast? = some last) (hbehind : ∀ r ∈ rows, c.before r)
    (hsorted : rows.Pairwise (Interactive.notAfter · · = true)) (hsmall : last.id ≤ maxInt)
    (hmet : c.before e → e ∈ rows ∨ (c.advance last.uTime last.id).before e) :
    Traced (c.advance last.uTime last.id) e (.read rows :: log) := by
  have hin : last ∈ rows := List.mem_of_getLast? hlast
  have hnext : c.utime < last.uTime ∨ c.utime = last.uTime ∧ c.id < last.id := hbehind last hin
  have hunread : ¬ c.before e → ¬ ReadSince e log → ¬ ReadSince e (.read rows :: log) := by
    rintro hno hlog (hmem | hmem)
    · exact hno (hbehind e hmem)
    · exact hlog hmem
  have hpassed : ¬ c.before e → ¬ (c.advance last.uTime last.id).before e := by
    intro hno hbefore
    change last.uTime < e.uTime ∨ last.uTime = e.uTime ∧ last.id < e.id at hbefore
    apply hno
    change c.utime < e.uTime ∨ c.utime = e.uTime ∧ c.id < e.id
    omega
  have hmax : ∀ r ∈ rows, r.uTime ≤ last.uTime := by
    intro r hr
    obtain ⟨init, rfl⟩ := List.getLast?_eq_some_iff.1 hlast
    rcases List.mem_append.1 hr with hr | hr
    · have hle :=
        Interactive.notAfter_iff.1 ((List.pairwise_append.1 hsorted).2.2 r hr last (by simp))
      omega
    · simp_all
  refine ⟨?_, ?_, ?_⟩
  · rcases h.met with hbefore | hread | ⟨hlevel, heq⟩ | hover
    · rcases hmet hbefore with hmem | hlater
      · exact .inr (.inl (.inl hmem))
      · exact .inl hlater
    · exact .inr (.inl (.inr hread))
    · by_cases htime : last.uTime = e.uTime
      · exact .inr (.inr (.inl ⟨hlevel, htime⟩))
      · exact .inr (.inr (.inr (.inr ⟨hlevel, last, hin, by omega⟩)))
    · exact .inr (.inr (.inr (.inl hover)))
  · rintro (hover | ⟨hlevel, r, hr, hlater⟩)
    · obtain ⟨hlog, hno, hadvanced⟩ := h.overtaken hover
      refine ⟨hunread hno hlog, hpassed hno, fun _ => ?_⟩
      change e.uTime < last.uTime
      cases ha : c.advanced with
      | true =>
        have := hadvanced ha
        omega
      | false =>
        have hid := (hp.resting ha).1
        have hle : ¬ (c.utime < e.uTime ∨ c.utime = e.uTime ∧ c.id < e.id) := hno
        omega
    · obtain ⟨hlog, hno, _⟩ := h.behind hlevel
      refine ⟨hunread hno hlog, hpassed hno, fun _ => ?_⟩
      exact Int.lt_of_lt_of_le hlater (hmax r hr)
  · intro hlevel
    obtain ⟨hlog, hno, _⟩ := h.behind hlevel
    exact ⟨hunread hno hlog, hpassed hno, rfl⟩

theorem Traced.restart (h : Traced c e log) (hp : Placed watermark times c)
    (hmin : minInt ≤ watermark) (hsmall : e.id ≤ maxInt) :
    Traced (c.restart .incremental) e (.restarted :: log) := by
  cases ha : c.advanced with
  | false =>
    rw [restart_resting ha]
    refine ⟨?_, h.overtaken, False.elim⟩
    rcases h.met with hbefore | hread | ⟨hlevel, _⟩ | hover
    · exact .inl hbefore
    · exact .inr (.inl hread)
    · have := (h.behind hlevel).2.2
      simp [ha] at this
    · exact .inr (.inr (.inr hover))
  | true =>
    have hw := (hp.advanced ha).2
    rw [restart_advanced ha (by omega)]
    refine ⟨?_, ?_, False.elim⟩
    · rcases h.met with hbefore | hread | ⟨_, heq⟩ | hover
      · left
        change c.utime < e.uTime ∨ c.utime = e.uTime ∧ c.id < e.id at hbefore
        change c.utime - 1 < e.uTime ∨ c.utime - 1 = e.uTime ∧ maxInt < e.id
        omega
      · exact .inr (.inl hread)
      · left
        change c.utime - 1 < e.uTime ∨ c.utime - 1 = e.uTime ∧ maxInt < e.id
        omega
      · exact .inr (.inr (.inr hover))
    · intro hover
      obtain ⟨hlog, _, hadvanced⟩ := h.overtaken hover
      have hlater := hadvanced ha
      refine ⟨hlog, ?_, fun h => by cases h⟩
      change ¬ (c.utime - 1 < e.uTime ∨ c.utime - 1 = e.uTime ∧ maxInt < e.id)
      omega

/-- After a restart a row is read or still to come exactly if it has not been overtaken. -/
theorem Traced.met_iff (h : Traced c e (.restarted :: log)) :
    (ReadSince e log ∨ c.before e) ↔ ¬ Overtaken e log := by
  constructor
  · intro hmet hover
    obtain ⟨hread, hno, _⟩ := h.overtaken hover
    exact hmet.elim hread hno
  · intro hno
    rcases h.met with hbefore | hread | ⟨hlevel, _⟩ | hover
    · exact .inr hbefore
    · exact .inl hread
    · exact hlevel.elim
    · exact absurd hover hno

theorem placed_start : Placed watermark times (.start .incremental watermark) where
  floor := Int.le_refl _
  advanced := fun h => by cases h
  resting := fun _ => ⟨rfl, .inl rfl⟩

theorem Placed.mono (h : Placed watermark times c) {more : List Int} (hm : times ⊆ more) :
    Placed watermark more c where
  floor := h.floor
  advanced := fun ha => ⟨hm (h.advanced ha).1, (h.advanced ha).2⟩
  resting :=
    fun ha => ⟨(h.resting ha).1, (h.resting ha).2.imp_right fun ⟨t, ht, hlt⟩ => ⟨t, hm ht, hlt⟩⟩

theorem Placed.page (h : Placed watermark times c) {last : Interactive} (hbefore : c.before last)
    (hsmall : last.id ≤ maxInt) (hin : last.uTime ∈ times) :
    Placed watermark times (c.advance last.uTime last.id) := by
  have hfloor := h.floor
  have habove : watermark < last.uTime := by
    rcases hbefore with hlt | ⟨heq, hid⟩
    · omega
    · cases ha : c.advanced with
      | true =>
        have := (h.advanced ha).2
        omega
      | false =>
        have := (h.resting ha).1
        omega
  exact ⟨Int.le_of_lt habove, fun _ => ⟨hin, habove⟩, fun h => by cases h⟩

theorem Placed.restart (h : Placed watermark times c) (hmin : minInt ≤ watermark) :
    Placed watermark times (c.restart .incremental) := by
  cases ha : c.advanced with
  | false =>
    rwa [restart_resting ha]
  | true =>
    obtain ⟨hin, hw⟩ := h.advanced ha
    rw [restart_advanced ha (by omega)]
    refine ⟨?_, fun h => (by cases h), fun _ => ⟨rfl, .inr ⟨c.utime, hin, ?_⟩⟩⟩
    · change watermark ≤ c.utime - 1
      omega
    · change c.utime - 1 < c.utime
      omega

end Steps

end DualWrite
