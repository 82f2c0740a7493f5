import DualWrite.Proofs.Store.Entities
import DualWrite.Proofs.Validation.Scene

/-!
# The order of a full scan

A full scan meets ids in ascending order, whatever the stores do under it: a page lies behind all
that was met before, and the page in hand only shrinks until the next one. So nothing is reported
twice, and every event carries the label of its plan and a kind of its side.
-/
namespace DualWrite

/-- What a store holds under an id: nothing, a row, or a row that cannot be read. -/
abbrev View := Option (Except Store.Fault Interactive)

namespace Event.Kind

/-- How two views of a row differ, the base's first. -/
def between? : View → View → Option Kind
  | some b, some t => if b = t then none else some .unequal
  | some _, none => some .targetMissing
  | none, some _ => some .baseMissing
  | none, none => none

theorem between?_eq_none {b t : View} : between? b t = none ↔ b = t := by
  cases b with
  | none => cases t <;> simp [between?]
  | some b =>
    cases t with
    | none => simp [between?]
    | some t => by_cases h : b = t <;> simp [between?, h]

end Event.Kind

namespace Side

def reports : Side → Event.Kind → Bool
  | .forward, k => k.isForward
  | .reverse, k => !k.isForward

theorem exists_reports (k : Event.Kind) : ∃ side : Side, side.reports k = true := by
  cases hk : k.isForward
  · exact ⟨.reverse, by simp [reports, hk]⟩
  · exact ⟨.forward, by simp [reports, hk]⟩

end Side

/-- The events that two views of the row under an id call for. -/
def Plan.verdict (p : Plan) (id : Int) (base target : View) : List Event :=
  (Event.Kind.between? base target).toList.map fun k => p.event k id

section Verdict
variable (p : Plan) (i : Int) (e : Except Store.Fault Interactive) (t : View)

@[simp] theorem verdict_forward_none :
    (p.verdict i none t).filter (Side.reports .forward ·.kind) = [] := by
  cases t <;> rfl

@[simp] theorem verdict_reverse_some :
    (p.verdict i (some e) t).filter (Side.reports .reverse ·.kind) = [] := by
  cases t with
  | none => rfl
  | some t => by_cases h : e = t <;> simp [Plan.verdict, Event.Kind.between?, h,
    Plan.event, Side.reports,
      Event.Kind.isForward]

@[simp] theorem verdict_reverse_absent (b : View) :
    (p.verdict i b none).filter (Side.reports .reverse ·.kind) = [] := by
  cases b <;> rfl

theorem verdict_forward_some : (p.verdict i (some e) t).filter (Side.reports .forward ·.kind) =
    p.verdict i (some e) t := by
  cases t with
  | none => rfl
  | some t => by_cases h : e = t <;> simp [Plan.verdict, Event.Kind.between?, h,
    Plan.event, Side.reports,
      Event.Kind.isForward]

theorem verdict_reverse_none : (p.verdict i none t).filter (Side.reports .reverse ·.kind) =
    p.verdict i none t := by
  cases t <;> rfl

theorem difference_eq (r : Interactive) (other : Option Interactive) :
    Scan.difference p r other = p.verdict r.id (some (.ok r)) (other.map .ok) := by
  cases other with
  | none => rfl
  | some o => by_cases h : r = o <;> simp [Scan.difference, Plan.verdict, Event.Kind.between?, h]

theorem ids_events (k : Event.Kind) (ids : List Int) : (ids.map (p.event k)).map (·.id) = ids := by
  rw [List.map_map]
  exact List.map_id ids

theorem difference_ids (r : Interactive) (other : Option Interactive) :
    ((Scan.difference p r other).map (·.id)).Sublist [r.id] := by
  cases other with
  | none => exact List.Sublist.refl _
  | some o => by_cases h : r = o <;> simp [Scan.difference, h, Plan.event]

theorem length_difference_le (r : Interactive) (other : Option Interactive) :
    (Scan.difference p r other).length ≤ 1 := by
  have hids := (difference_ids p r other).length_le
  rwa [List.length_map] at hids

variable {p i t} in
theorem eq_of_mem_verdict {b : View} {x : Event} (h : x ∈ p.verdict i b t) :
    x = p.event x.kind i := by
  obtain ⟨k, _, rfl⟩ := List.mem_map.1 h
  rfl

variable {p} in
theorem mem_difference {r : Interactive} {other : Option Interactive} {x : Event}
    (h : x ∈ Scan.difference p r other) :
    x = p.event x.kind r.id ∧ Side.reports .forward x.kind = true := by
  rw [difference_eq] at h
  refine ⟨eq_of_mem_verdict h, ?_⟩
  rw [← verdict_forward_some] at h
  exact (List.mem_filter.1 h).2

end Verdict

theorem flatten_chunks {α : Type} (n : Nat) (xs : List α) : (chunks n xs).flatten = xs := by
  fun_induction chunks n xs with
  | case1 => rfl
  | case2 x xs ih => rw [List.flatten_cons, ih, List.cons_append, List.take_append_drop]

namespace Scan
variable {p : Plan} {side : Side} {out : List Event} {s s' : Scan}

/-- Ids that a scan has reported or holds in the page at hand, in the order in which it met them. -/
def trail (s : Scan) (out : List Event) : List Int :=
  (out ++ s.found).map (·.id) ++ s.toFind.map (·.id) ++ s.toCheck

/-- A scan that has sent some events met their ids in ascending order. -/
structure Sound (p : Plan) (side : Side) (out : List Event) (s : Scan) : Prop where
  own : s.side = side
  floor : minInt ≤ s.cursor.id
  ascending : (s.trail out).Pairwise (· < ·)
  within : ∀ i ∈ s.trail out, minInt < i ∧ i ≤ s.cursor.id
  labelled : ∀ e ∈ out ++ s.found, e = p.event e.kind e.id ∧ side.reports e.kind = true
  finds : side = .reverse → s.toFind = []
  checks : side = .forward → s.toCheck = []

theorem sound_start (hp : p.mode = .full) (side : Side) : Sound p side [] (start p side) := by
  refine ⟨rfl, ?_, ?_, ?_, ?_, fun _ => rfl, fun _ => rfl⟩
  · simp [start, Cursor.start, hp]
  all_goals simp [start, trail, found, toFind, toCheck]

theorem Sound.forward_of_finds (h : Sound p side out s) (hf : s.toFind ≠ []) : side = .forward := by
  cases side with
  | forward => rfl
  | reverse => exact absurd (h.finds rfl) hf

theorem Sound.reverse_of_checks (h : Sound p side out s) (hc : s.toCheck ≠ []) :
    side = .reverse := by
  cases side with
  | reverse => rfl
  | forward => exact absurd (h.checks rfl) hc

/-- Less in hand, and no more sent than was in hand. -/
theorem Sound.shrink {out' : List Event} (h : Sound p side out s) (hside : s'.side = s.side)
    (hcursor : s'.cursor = s.cursor) (htrail : (s'.trail out').Sublist (s.trail out))
    (hfind : s'.toFind.Sublist s.toFind) (hcheck : s'.toCheck.Sublist s.toCheck)
    (hlabel : ∀ e ∈ out' ++ s'.found, e = p.event e.kind e.id ∧ side.reports e.kind = true) :
    Sound p side out' s' where
  own := hside.trans h.own
  floor := hcursor ▸ h.floor
  ascending := h.ascending.sublist htrail
  within := fun i hi => hcursor ▸ h.within i (htrail.subset hi)
  labelled := hlabel
  finds := fun hs => List.sublist_nil.1 (h.finds hs ▸ hfind)
  checks := fun hs => List.sublist_nil.1 (h.checks hs ▸ hcheck)

theorem le_last {ids : List Int} (h : ids.Pairwise (· < ·)) {last : Int}
    (hl : ids.getLast? = some last) : ∀ i ∈ ids, i ≤ last := by
  obtain ⟨init, rfl⟩ := List.getLast?_eq_some_iff.1 hl
  intro i hi
  rcases List.mem_append.1 hi with hi | hi
  · exact Int.le_of_lt ((List.pairwise_append.1 h).2.2 i hi last (by simp))
  · simp_all

/-- With nothing in hand, the ids of the next page come behind all that were met. -/
theorem Sound.grow {ids : List Int} (h : Sound p side out s) (hside : s'.side = s.side)
    (hfound : s'.found = []) (htrail : s'.trail out = out.map (·.id) ++ ids)
    (hids : ids.Pairwise (· < ·)) (hbehind : ∀ i ∈ ids, s.cursor.id < i)
    (hlast : ids.getLast? = some s'.cursor.id)
    (hfind : side = .reverse → s'.toFind = []) (hcheck : side = .forward → s'.toCheck = []) :
    Sound p side out s' := by
  have hsent : (out.map (·.id)).Sublist (s.trail out) := by
    simp [trail, List.append_assoc]
  have hreach : s.cursor.id < s'.cursor.id := hbehind _ (List.mem_of_getLast? hlast)
  refine ⟨hside.trans h.own, Int.le_trans h.floor (Int.le_of_lt hreach), ?_, ?_, ?_, hfind, hcheck⟩
  · rw [htrail, List.pairwise_append]
    exact ⟨h.ascending.sublist hsent, hids,
      fun i hi j hj => Int.lt_of_le_of_lt (h.within i (hsent.subset hi)).2 (hbehind j hj)⟩
  · intro i hi
    rw [htrail] at hi
    rcases List.mem_append.1 hi with hi | hi
    · have hold := h.within i (hsent.subset hi)
      exact ⟨hold.1, Int.le_trans hold.2 (Int.le_of_lt hreach)⟩
    · exact ⟨Int.lt_of_le_of_lt h.floor (hbehind i hi), le_last hids hlast i hi⟩
  · intro e he
    rw [hfound, List.append_nil] at he
    exact h.labelled e (List.mem_append_left _ he)

theorem Sound.letGo (h : Sound p side out s) (hside : s'.side = s.side)
    (hcursor : s'.cursor = s.cursor) (hhand : s'.found = [] ∧ s'.toFind = [] ∧ s'.toCheck = []) :
    Sound p side out s' := by
  obtain ⟨hfound, hfind, hcheck⟩ := hhand
  refine h.shrink hside hcursor ?_ (by simp [hfind]) (by simp [hcheck]) ?_
  · simp [trail, hfound, hfind, hcheck, List.append_assoc]
  · intro e he
    rw [hfound, List.append_nil] at he
    exact h.labelled e (List.mem_append_left _ he)

theorem Sound.observe (h : Sound p side out s) (now : Nat) :
    Sound p side out (s.observe false now) := by
  rcases observe_false now s with he | ⟨_, he⟩
  · rwa [he]
  · rw [he]
    exact h.letGo rfl rfl ⟨rfl, rfl, rfl⟩

/-- A row that was looked up leaves the page, and what it differs in is found. -/
theorem Sound.find {row : Interactive} {rows : List Interactive} {held : List Event}
    (h : Sound p side out s) (hphase : s.phase = .comparing (row :: rows) held)
    (other : Option Interactive) :
    Sound p side out (s.compared rows (held ++ difference p row other)) := by
  have hfound : s.found = held := by simp [found, hphase]
  have hfind : s.toFind = row :: rows := by simp [toFind, hphase]
  have hside : side = .forward := h.forward_of_finds (by simp [hfind])
  refine h.shrink (by simp) (by simp) ?_ (by simp [hfind]) (by simp) ?_
  · simp only [trail, compared_found, compared_toFind, compared_toCheck, hfound, hfind,
      List.append_nil, List.map_append, List.map_cons, List.append_assoc]
    refine List.Sublist.append_left (List.Sublist.append_left ?_ _) _
    exact ((difference_ids p row other).append (List.Sublist.refl _)).trans (by simp)
  · intro e he
    rw [compared_found, ← List.append_assoc] at he
    rcases List.mem_append.1 he with he | he
    · exact h.labelled e (hfound ▸ he)
    · obtain ⟨he, hkind⟩ := mem_difference he
      exact ⟨by rw [he]; rfl, hside ▸ hkind⟩

/-- A chunk was looked up; after the last one the ids that are not there are found. -/
theorem Sound.present {ids chunk there : List Int} {chunks : List (List Int)}
    (h : Sound p side out s) (hphase : s.phase = .checking ids (chunk :: chunks) there)
    (known : List Int) : Sound p side out (s.checked p ids chunks known) := by
  have hfound : s.found = [] := by simp [found, hphase]
  have hfind : s.toFind = [] := by simp [toFind, hphase]
  have hcheck : s.toCheck = ids := by simp [toCheck, hphase]
  by_cases hc : chunks = []
  · refine h.shrink (by simp) (by simp) ?_ (by simp) (by simp [hc]) ?_
    · simp only [trail, checked_found, checked_toFind, checked_toCheck, hc, if_true, hfound, hcheck,
        hfind, List.map_append, ids_events, List.append_nil, List.map_nil]
      exact List.Sublist.append_left List.filter_sublist _
    · intro e he
      simp only [checked_found, hc, if_true] at he
      rcases List.mem_append.1 he with he | he
      · exact h.labelled e (List.mem_append_left _ he)
      · obtain ⟨j, hj, rfl⟩ := List.mem_map.1 he
        have hne : s.toCheck ≠ [] := hcheck ▸ List.ne_nil_of_mem (List.mem_filter.1 hj).1
        rw [h.reverse_of_checks hne]
        exact ⟨rfl, rfl⟩
  · refine h.shrink (by simp) (by simp) ?_ (by simp) (by simp [hc, hcheck]) ?_
    · simp [trail, hc, hfound, hcheck]
    · simpa [hfound, hc] using h.labelled

section Turns
variable {st : Direction → Store} {now : Nat} {es : List Event} {ns : List Notice}

theorem Sound.turn (hp : p.mode = .full) (hb : 1 ≤ p.batch) (hk : ∀ d, (st d).Keyed)
    (h : Sound p side out s) (ht : Turn p (fun d => Source.ofStore (st d)) now s es ns s') :
    Sound p side (out ++ es) s' := by
  have hready : s.phase = .ready → s.found = [] ∧ s.toFind = [] ∧ s.toCheck = [] := by
    intro hr
    simp [found, toFind, toCheck, hr]
  cases ht with
  | idle => simpa using h
  | page hside hphase hpage hlast =>
    obtain ⟨hfound, hfind, hcheck⟩ := hready hphase
    rw [hp] at hpage
    obtain ⟨hstretch, _⟩ := Store.page_ok (hk p.base) hb hpage
    rw [List.append_nil]
    refine h.grow rfl rfl (by simp [trail, found, toFind, toCheck]) hstretch.ascending
      hstretch.behind
      (by simp [hlast, Cursor.advance]) ?_ (fun _ => rfl)
    intro hs
    rw [← h.own, hside] at hs
    cases hs
  | keys hside hphase hkeys hlast =>
    obtain ⟨hfound, hfind, hcheck⟩ := hready hphase
    rw [hp] at hkeys
    have hstretch := Store.keys_ok (hk p.base.other) hb hkeys
    rw [List.append_nil]
    refine h.grow rfl rfl (by simp [trail, found, toFind, toCheck]) hstretch.ascending
      hstretch.behind
      (by simp [hlast, Cursor.advance]) (fun _ => rfl) ?_
    intro hs
    rw [← h.own, hside] at hs
    cases hs
  | pageDrained | keysDrained =>
    rw [List.append_nil]
    exact h.letGo (drained_side _) (drained_cursor hp _) (drained_hand _)
  | pageFailed | keysFailed =>
    rw [List.append_nil]
    exact h.letGo (backOff_side _ _) (backOff_cursor _ _) (backOff_hand _ _)
  | find hphase =>
    rw [List.append_nil]
    exact h.find hphase _
  | @findFailed row rows held e hphase _ =>
    have hfound : s.found = held := by simp [found, hphase]
    have hfind : s.toFind = row :: rows := by simp [toFind, hphase]
    refine h.shrink (by simp) (by simp) ?_ (by simp [hfind]) (by simp) ?_
    · simp [trail, hfound, hfind]
    · simpa [hfound] using h.labelled
  | present hphase =>
    rw [List.append_nil]
    exact h.present hphase _
  | @presentFailed ids chunk chunks there e hphase _ =>
    rw [List.append_nil]
    exact h.letGo rfl rfl (by simp)
  | @publish e es hphase =>
    have hfound : s.found = e :: es := by simp [found, hphase]
    refine h.shrink rfl rfl ?_ (by simp) (by simp) ?_
    · simp [trail, hfound]
    · simpa [hfound] using h.labelled

theorem Turn.reach (hp : p.mode = .full) (hb : 1 ≤ p.batch) (hk : ∀ d, (st d).Keyed) {bound : Int}
    (hids : ∀ d i, ((st d).entity? i).isSome → i ≤ bound) (hs : s.cursor.id ≤ bound)
    (ht : Turn p (fun d => Source.ofStore (st d)) now s es ns s') : s'.cursor.id ≤ bound := by
  cases ht with
  | page _ _ hpage hlast =>
    rw [hp] at hpage
    have hread := (Store.page_ok (hk p.base) hb hpage).2 _ (List.mem_of_getLast? hlast)
    exact hids p.base _ (Option.isSome_iff_exists.2 ⟨_, hread⟩)
  | keys _ _ hkeys hlast =>
    rw [hp] at hkeys
    have hstretch := Store.keys_ok (hk p.base.other) hb hkeys
    exact hids p.base.other _
      (hstretch.present _ (List.mem_map_of_mem (List.mem_of_getLast? hlast)))
  | pageDrained | keysDrained => rwa [drained_cursor hp]
  | pageFailed | keysFailed => rwa [backOff_cursor]
  | _ => simpa using hs

end Turns

end Scan
end DualWrite
