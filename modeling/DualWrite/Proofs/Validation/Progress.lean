import DualWrite.Proofs.Validation.Faults
import DualWrite.Proofs.Validation.Pages
import DualWrite.Proofs.Validation.Survey

/-!
# A pass over tables that stand still, to its end

Such a pass is settled before it begins: the pages that a scan will read, the events that it will
send and the failures that it will report are functions of the tables and of the faults. Each turn
moves a part of what is to come to what has been, and leaves less to do; so the pass ends, and ends
with all of it done.
-/
namespace DualWrite

theorem length_chunks_le {α : Type} (n : Nat) (xs : List α) : (chunks n xs).length ≤ xs.length := by
  fun_induction chunks n xs with
  | case1 => simp
  | case2 x xs ih =>
    rw [List.length_drop] at ih
    simp only [List.length_cons]
    omega

theorem chunks_ne_nil {α : Type} (n : Nat) {xs : List α} (h : xs ≠ []) : chunks n xs ≠ [] := by
  cases xs with
  | nil => exact absurd rfl h
  | cons x xs => simp [chunks]

namespace Scan

inductive Page where
  | rows (rs : List Interactive)
  | ids (is : List Int)

def Page.size : Page → Nat
  | .rows rs => rs.length
  | .ids is => is.length

section Judging
variable (p : Plan) (asked : Source) (store : String)

def differences (rows : List Interactive) : List Event :=
  rows.flatMap fun r =>
    match asked.find r.id with
    | .ok other => difference p r other
    | .error _ => []

def lookupFailures (rows : List Interactive) : List Notice :=
  rows.filterMap fun r =>
    match asked.find r.id with
    | .ok _ => none
    | .error e => some (.lookupFailed r.id store e)

/-- Events of ids while some chunks of them are still to be looked up. A chunk that fails leaves
nothing to report. -/
def missing (ids : List Int) (chunks : List (List Int)) (there : List Int) : List Event :=
  match chunks.mapM asked.present with
  | .ok more => (ids.filter (· ∉ there ++ more.flatten)).map (p.event .baseMissing)
  | .error _ => []

def presenceFailures (chunks : List (List Int)) : List Notice :=
  match chunks.mapM asked.present with
  | .ok _ => []
  | .error e => [.presenceFailed store e]

def Page.events : Page → List Event
  | .rows rs => differences p asked rs
  | .ids is => missing p asked is (chunks chunkSize is) []

def Page.failures : Page → List Notice
  | .rows rs => lookupFailures asked store rs
  | .ids is => presenceFailures asked store (chunks chunkSize is)

def pending (s : Scan) : List Event :=
  match s.phase with
  | .comparing rows found => found ++ differences p asked rows
  | .checking ids chunks there => missing p asked ids chunks there
  | .publishing events => events
  | _ => []

/-- Failures that look-ups for the page at hand still run into. -/
def pendingFailures (s : Scan) : List Notice :=
  match s.phase with
  | .comparing rows _ => lookupFailures asked store rows
  | .checking _ chunks _ => presenceFailures asked store chunks
  | _ => []

@[simp] theorem differences_nil : differences p asked [] = [] := rfl

@[simp] theorem lookupFailures_nil : lookupFailures asked store [] = [] := rfl

theorem missing_nil (ids there : List Int) :
    missing p asked ids [] there = (ids.filter (· ∉ there)).map (p.event .baseMissing) := by
  simp [missing, pure, Except.pure]

@[simp] theorem presenceFailures_nil : presenceFailures asked store [] = [] := rfl

section
variable (s : Scan) (es : List Event)

@[simp] theorem pending_publish : (s.publish es).pending p asked = es := by
  by_cases h : es = [] <;> simp [publish, pending, h]

@[simp] theorem pendingFailures_publish : (s.publish es).pendingFailures asked store = [] := by
  by_cases h : es = [] <;> simp [publish, pendingFailures, h]

@[simp] theorem pending_compared (rows : List Interactive) :
    (s.compared rows es).pending p asked = es ++ differences p asked rows := by
  by_cases h : rows = []
  · simp [compared, h]
  · simp [compared, pending, h]

@[simp] theorem pendingFailures_compared (rows : List Interactive) :
    (s.compared rows es).pendingFailures asked store = lookupFailures asked store rows := by
  by_cases h : rows = []
  · simp [compared, h]
  · simp [compared, pendingFailures, h]

variable (ids there : List Int) (chunks : List (List Int))

@[simp] theorem pending_checked :
    (s.checked p ids chunks there).pending p asked = missing p asked ids chunks there := by
  by_cases h : chunks = []
  · rw [checked, if_pos h, pending_publish, h, missing_nil]
  · simp [checked, pending, h]

@[simp] theorem pendingFailures_checked :
    (s.checked p ids chunks there).pendingFailures asked store =
    presenceFailures asked store chunks := by
  by_cases h : chunks = []
  · rw [checked, if_pos h, pendingFailures_publish, h, presenceFailures_nil]
  · simp [checked, pendingFailures, h]

end

section
variable {s : Scan}

theorem pending_comparing {rows : List Interactive} {es : List Event}
    (h : s.phase = .comparing rows es) : s.pending p asked = es ++ differences p asked rows := by
  rw [pending, h]

theorem pendingFailures_comparing {rows : List Interactive} {es : List Event}
    (h : s.phase = .comparing rows es) :
    s.pendingFailures asked store = lookupFailures asked store rows := by
  rw [pendingFailures, h]

theorem pending_checking {ids there : List Int} {chunks : List (List Int)}
    (h : s.phase = .checking ids chunks there) :
    s.pending p asked = missing p asked ids chunks there := by
  rw [pending, h]

theorem pendingFailures_checking {ids there : List Int} {chunks : List (List Int)}
    (h : s.phase = .checking ids chunks there) :
    s.pendingFailures asked store = presenceFailures asked store chunks := by
  rw [pendingFailures, h]

theorem pending_publishing {es : List Event} (h : s.phase = .publishing es) :
    s.pending p asked = es := by
  rw [pending, h]

theorem pendingFailures_publishing {es : List Event} (h : s.phase = .publishing es) :
    s.pendingFailures asked store = [] := by
  rw [pendingFailures, h]

end

variable {p asked store}

theorem missing_cons {ids chunk there more : List Int} {chunks : List (List Int)}
    (h : asked.present chunk = .ok more) :
    missing p asked ids (chunk :: chunks) there = missing p asked ids chunks (there ++ more) := by
  rw [missing, missing, List.mapM_cons, h]
  cases chunks.mapM asked.present with
  | error e => rfl
  | ok rest =>
    have hflat : there ++ (more :: rest).flatten = there ++ more ++ rest.flatten := by
      rw [List.flatten_cons, List.append_assoc]
    change ((ids.filter (· ∉ there ++ (more :: rest).flatten)).map _) = _
    rw [hflat]

theorem presenceFailures_cons {chunk more : List Int} {chunks : List (List Int)}
    (h : asked.present chunk = .ok more) :
    presenceFailures asked store (chunk :: chunks) = presenceFailures asked store chunks := by
  rw [presenceFailures, presenceFailures, List.mapM_cons, h]
  cases chunks.mapM asked.present <;> rfl

theorem missing_failed {ids chunk there : List Int} {chunks : List (List Int)} {e : Error}
    (h : asked.present chunk = .error e) : missing p asked ids (chunk :: chunks) there = [] := by
  rw [missing, List.mapM_cons, h]
  rfl

theorem presenceFailures_failed {chunk : List Int} {chunks : List (List Int)} {e : Error}
    (h : asked.present chunk = .error e) :
    presenceFailures asked store (chunk :: chunks) = [.presenceFailed store e] := by
  rw [presenceFailures, List.mapM_cons, h]
  rfl

theorem differences_cons {r : Interactive} {rows : List Interactive} {other : Option Interactive}
    (h : asked.find r.id = .ok other) :
    differences p asked (r :: rows) = difference p r other ++ differences p asked rows := by
  rw [differences, List.flatMap_cons, h]
  rfl

theorem differences_failed {r : Interactive} {rows : List Interactive} {e : Error}
    (h : asked.find r.id = .error e) :
    differences p asked (r :: rows) = differences p asked rows := by
  rw [differences, List.flatMap_cons, h]
  rfl

theorem lookupFailures_cons {r : Interactive} {rows : List Interactive} {other : Option Interactive}
    (h : asked.find r.id = .ok other) :
    lookupFailures asked store (r :: rows) = lookupFailures asked store rows := by
  rw [lookupFailures, List.filterMap_cons_none (by rw [h])]
  rfl

theorem lookupFailures_failed {r : Interactive} {rows : List Interactive} {e : Error}
    (h : asked.find r.id = .error e) :
    lookupFailures asked store (r :: rows) =
      .lookupFailed r.id store e :: lookupFailures asked store rows := by
  rw [lookupFailures, List.filterMap_cons_some (by rw [h])]
  rfl

end Judging

/-- The pages that the scan of a side reads from a cursor on. -/
inductive Course (p : Plan) (source : Direction → Source) : Side → Cursor → List Page → Prop where
  | rows {c pages} : Pages (fun c => (source p.base).page p.mode p.batch c)
      (fun e => (e.id, e.uTime)) c pages → Course p source .forward c (pages.map .rows)
  | keys {c pages} : Pages (fun c => (source p.base.other).keys p.mode p.batch c) id c pages →
      Course p source .reverse c (pages.map fun ks => .ids (ks.map (·.1)))

def left (pages : List Page) : Nat := (pages.map Page.size).sum

/-- More turns than a scan still takes with so many rows to read. -/
def work (rest : Nat) (s : Scan) : Nat :=
  match s.phase with
  | .ready => 1 + 4 * rest
  | .comparing rows found => 2 + 4 * rest + 2 * rows.length + found.length
  | .checking page chunks _ => 2 + 4 * rest + page.length + chunks.length
  | .publishing events => 2 + 4 * rest + events.length
  | .pausing _ | .ended _ => 0

section
variable (rest : Nat) (s : Scan) (es : List Event)

theorem work_publish_le : (s.publish es).work rest ≤ 2 + 4 * rest + es.length := by
  by_cases h : es = []
  · simp [publish, work, h]
  · simp [publish, work, h]

theorem work_compared_le (rows : List Interactive) :
    (s.compared rows es).work rest ≤ 2 + 4 * rest + 2 * rows.length + es.length := by
  by_cases h : rows = []
  · rw [compared, if_pos h]
    have := work_publish_le rest s es
    omega
  · simp [compared, work, h]

theorem work_checked_le (p : Plan) (page present : List Int) (chunks : List (List Int)) :
    (s.checked p page chunks present).work rest ≤ 2 + 4 * rest + page.length + chunks.length := by
  by_cases h : chunks = []
  · rw [checked, if_pos h]
    have := work_publish_le rest s ((page.filter (· ∉ present)).map (p.event .baseMissing))
    have hle := List.length_filter_le (· ∉ present) page
    rw [List.length_map] at this
    omega
  · simp [checked, work, h]

theorem work_compared_lt {row : Interactive} {rows : List Interactive} {held : List Event}
    (h : s.phase = .comparing (row :: rows) held) (hes : es.length ≤ held.length + 1) :
    (s.compared rows es).work rest < s.work rest := by
  have hbefore : s.work rest = 2 + 4 * rest + 2 * (rows.length + 1) + held.length := by
    simp only [work, h, List.length_cons]
  have hle := work_compared_le rest s es rows
  omega

theorem work_checked_lt (p : Plan) {ids chunk there more : List Int} {chunks : List (List Int)}
    (h : s.phase = .checking ids (chunk :: chunks) there) :
    (s.checked p ids chunks more).work rest < s.work rest := by
  have hbefore : s.work rest = 2 + 4 * rest + ids.length + (chunks.length + 1) := by
    simp only [work, h, List.length_cons]
  have hle := work_checked_le rest s p ids more chunks
  omega

theorem work_publish_nil_lt {ids chunk there : List Int} {chunks : List (List Int)}
    (h : s.phase = .checking ids (chunk :: chunks) there) :
    (s.publish []).work rest < s.work rest := by
  have hbefore : s.work rest = 2 + 4 * rest + ids.length + (chunks.length + 1) := by
    simp only [work, h, List.length_cons]
  have hle := work_publish_le rest s []
  rw [List.length_nil] at hle
  omega

theorem work_publish_lt {e : Event} (h : s.phase = .publishing (e :: es)) :
    (s.publish es).work rest < s.work rest := by
  have hbefore : s.work rest = 2 + 4 * rest + (es.length + 1) := by
    simp only [work, h, List.length_cons]
  have hle := work_publish_le rest s es
  omega

theorem publish_request : (s.publish es).request ≠ .nothing := by
  cases es with
  | nil => cases h : s.side <;> simp [publish, request, h]
  | cons e es => cases h : s.side <;> simp [publish, request, h]

theorem compared_request (rows : List Interactive) : (s.compared rows es).request ≠ .nothing := by
  cases rows with
  | nil => exact publish_request s es
  | cons r rows => cases h : s.side <;> simp [compared, request, h]

theorem checked_request (p : Plan) (page present : List Int) (chunks : List (List Int)) :
    (s.checked p page chunks present).request ≠ .nothing := by
  cases chunks with
  | nil => exact publish_request s _
  | cons c cs => cases h : s.side <;> simp [checked, request, h]

theorem work_pos (h : s.request ≠ .nothing) : 0 < s.work rest := by
  rcases s with ⟨side, cursor, failures, phase⟩
  cases phase with
  | pausing | ended => cases side <;> exact absurd rfl h
  | _ => simp only [work]; omega

end

theorem Turn.idle_of_nothing {p : Plan} {source : Direction → Source} {now : Nat} {s s' : Scan}
    {es : List Event} {ns : List Notice} (h : s.request = .nothing)
    (ht : Turn p source now s es ns s') : es = [] ∧ ns = [] ∧ s' = s := by
  cases ht with
  | idle => exact ⟨rfl, rfl, rfl⟩
  | _ => simp_all [request]

section Sweeping
variable {f : Faults} {p : Plan} {source : Direction → Source} {side : Side}

def askedUnder (f : Faults) (p : Plan) (source : Direction → Source) (side : Side) : Source :=
  (source (p.asked side)).failing f

/-- Events that a scan would still send if no publication failed. -/
def eventsAhead (f : Faults) (p : Plan) (source : Direction → Source)
    (pages : List Page) (s : Scan) : List Event :=
  s.pending p (askedUnder f p source s.side) ++
    pages.flatMap (Page.events p (askedUnder f p source s.side))

def noticesAhead (f : Faults) (p : Plan) (source : Direction → Source)
    (pages : List Page) (s : Scan) : List Notice :=
  s.pendingFailures (askedUnder f p source s.side) (p.asked s.side).storeName ++
    pages.flatMap (Page.failures (askedUnder f p source s.side) (p.asked s.side).storeName) ++
    f.lost (s.eventsAhead f p source pages)

/-- A turn of a busy scan moves a part of what is to come to what has been. -/
structure Step (f : Faults) (p : Plan) (source : Direction → Source) (pages : List Page) (s : Scan)
    (es : List Event) (ns : List Notice) (rest : List Page) (s' : Scan) : Prop where
  sent : es ++ f.kept (s'.eventsAhead f p source rest) = f.kept (s.eventsAhead f p source pages)
  reported : (ns ++ s'.noticesAhead f p source rest).Perm (s.noticesAhead f p source pages)
  onward : s'.phase = .ended (.ok ()) ∧ rest = [] ∨ Course p source s.side s'.cursor rest ∧
    s'.request ≠ .nothing ∧ s'.work (left rest) < s.work (left pages)

variable {now : Nat} {s s' : Scan} {es : List Event} {ns : List Notice} {pages : List Page}

/-- A turn inside a page concerns what is in hand alone. -/
theorem Step.inside (hside : s'.side = s.side) (hcursor : s'.cursor = s.cursor)
    (hcourse : Course p source s.side s.cursor pages) (hrequest : s'.request ≠ .nothing)
    (hwork : s'.work (left pages) < s.work (left pages))
    (hsent : es ++ f.kept (s'.pending p (askedUnder f p source s.side)) =
      f.kept (s.pending p (askedUnder f p source s.side)))
    (hreported : (ns ++ s'.pendingFailures (askedUnder f p source s.side)
      (p.asked s.side).storeName ++ f.lost (s'.pending p (askedUnder f p source s.side))).Perm
        (s.pendingFailures (askedUnder f p source s.side) (p.asked s.side).storeName ++
          f.lost (s.pending p (askedUnder f p source s.side)))) :
    Step f p source pages s es ns pages s' where
  sent := by
    rw [eventsAhead, eventsAhead, hside, Faults.kept_append, Faults.kept_append, ← hsent,
      List.append_assoc]
  reported := by
    rw [List.perm_iff_count]
    intro a
    have hcount := hreported.count_eq a
    simp only [noticesAhead, eventsAhead, hside, Faults.lost_append, List.count_append] at hcount ⊢
    omega
  onward := .inr ⟨hcursor ▸ hcourse, hrequest, hwork⟩

theorem Course.page {c : Cursor} {rows : List Interactive}
    (h : Course p source .forward c pages)
    (hpage : (source p.base).page p.mode p.batch c = .ok rows) :
    rows = [] ∧ pages = [] ∨ ∃ last rest, rows.getLast? = some last ∧ pages = .rows rows :: rest ∧
      Course p source .forward (c.advance last.uTime last.id) rest := by
  cases h with
  | rows h =>
    cases h with
    | drained h => exact .inl ⟨Except.ok.inj (hpage.symm.trans h), rfl⟩
    | read h hlast hrest =>
      obtain rfl := Except.ok.inj (hpage.symm.trans h)
      exact .inr ⟨_, _, hlast, rfl, .rows hrest⟩

theorem Course.keys_page {c : Cursor} {ks : List (Int × Int)} (h : Course p source .reverse c pages)
    (hkeys : (source p.base.other).keys p.mode p.batch c = .ok ks) :
    ks = [] ∧ pages = [] ∨ ∃ last rest, ks.getLast? = some last ∧
      pages = .ids (ks.map (·.1)) :: rest ∧
      Course p source .reverse (c.advance last.2 last.1) rest := by
  cases h with
  | keys h =>
    cases h with
    | drained h => exact .inl ⟨Except.ok.inj (hkeys.symm.trans h), rfl⟩
    | read h hlast hrest =>
      obtain rfl := Except.ok.inj (hkeys.symm.trans h)
      exact .inr ⟨_, _, hlast, rfl, .keys hrest⟩

theorem Course.page_ok {c : Cursor} (h : Course p source .forward c pages) :
    ∃ rows, (source p.base).page p.mode p.batch c = .ok rows := by
  cases h with
  | rows h =>
    cases h with
    | drained h => exact ⟨_, h⟩
    | read h => exact ⟨_, h⟩

theorem Course.keys_ok {c : Cursor} (h : Course p source .reverse c pages) :
    ∃ ks, (source p.base.other).keys p.mode p.batch c = .ok ks := by
  cases h with
  | keys h =>
    cases h with
    | drained h => exact ⟨_, h⟩
    | read h => exact ⟨_, h⟩

theorem step_drained (hi : p.interval = 0) (hphase : s.phase = .ready) :
    Step f p source [] s [] [] [] (({ s with failures := 0 } : Scan).drained p now) := by
  have hdrained : ({ s with failures := 0 } : Scan).drained p now =
      ({ s with failures := 0 } : Scan).endWith (.ok ()) := by
    rw [drained, if_pos hi]
  rw [hdrained]
  refine ⟨?_, ?_, .inl ⟨rfl, rfl⟩⟩
  · simp [eventsAhead, pending, hphase, endWith]
  · simp [noticesAhead, eventsAhead, pending, pendingFailures, hphase, endWith]

section
variable (hcourse : Course p source s.side s.cursor pages)
include hcourse

theorem step_page {rows : List Interactive} {last : Interactive} (hside : s.side = .forward)
    (hphase : s.phase = .ready) (hpage : (source p.base).page p.mode p.batch s.cursor = .ok rows)
    (hlast : rows.getLast? = some last) : ∃ rest, Step f p source pages s [] [] rest { s with
      failures := 0
      cursor := s.cursor.advance last.uTime last.id
      phase := .comparing rows [] } := by
  rw [hside] at hcourse
  rcases hcourse.page hpage with ⟨rfl, _⟩ | ⟨last', rest, hlast', rfl, hrest⟩
  · cases hlast
  obtain rfl := Option.some.inj (hlast.symm.trans hlast')
  have hpos : 0 < rows.length := List.length_pos_of_mem (List.mem_of_getLast? hlast)
  refine ⟨rest, ?_, ?_, .inr ⟨hside ▸ hrest, ?_, ?_⟩⟩
  · simp [eventsAhead, pending, hphase, Page.events]
  · simp [noticesAhead, eventsAhead, pending, pendingFailures, hphase, Page.events, Page.failures]
  · cases rows with
    | nil => cases hlast
    | cons r rows => simp [request, hside]
  · simp only [work, hphase, left, List.map_cons, List.sum_cons, Page.size, List.length_nil]
    omega

theorem step_keys {ks : List (Int × Int)} {last : Int × Int} (hside : s.side = .reverse)
    (hphase : s.phase = .ready)
    (hkeys : (source p.base.other).keys p.mode p.batch s.cursor = .ok ks)
    (hlast : ks.getLast? = some last) : ∃ rest, Step f p source pages s [] [] rest { s with
      failures := 0, cursor := s.cursor.advance last.2 last.1,
      phase := .checking (ks.map (·.1)) (chunks chunkSize (ks.map (·.1))) [] } := by
  rw [hside] at hcourse
  rcases hcourse.keys_page hkeys with ⟨rfl, _⟩ | ⟨last', rest, hlast', rfl, hrest⟩
  · cases hlast
  obtain rfl := Option.some.inj (hlast.symm.trans hlast')
  have hpos : 0 < ks.length := List.length_pos_of_mem (List.mem_of_getLast? hlast)
  have hchunks := length_chunks_le chunkSize (ks.map (·.1))
  rw [List.length_map] at hchunks
  refine ⟨rest, ?_, ?_, .inr ⟨hside ▸ hrest, ?_, ?_⟩⟩
  · simp [eventsAhead, pending, hphase, Page.events]
  · simp [noticesAhead, eventsAhead, pending, pendingFailures, hphase, Page.events, Page.failures]
  · have hne : ks.map (·.1) ≠ [] := List.ne_nil_of_length_pos (by rwa [List.length_map])
    obtain ⟨c, cs, hc⟩ := List.exists_cons_of_ne_nil (chunks_ne_nil chunkSize hne)
    simp [request, hside, hc]
  · simp only [work, hphase, left, List.map_cons, List.sum_cons, Page.size, List.length_map]
    omega

theorem step_pageDrained (hi : p.interval = 0) (hside : s.side = .forward)
    (hphase : s.phase = .ready)
    (hpage : (source p.base).page p.mode p.batch s.cursor = .ok []) :
    ∃ rest, Step f p source pages s [] [] rest
      (({ s with failures := 0 } : Scan).drained p now) := by
  rw [hside] at hcourse
  rcases hcourse.page hpage with ⟨_, rfl⟩ | ⟨_, _, hlast, _⟩
  · exact ⟨[], step_drained hi hphase⟩
  · cases hlast

theorem step_keysDrained (hi : p.interval = 0) (hside : s.side = .reverse)
    (hphase : s.phase = .ready)
    (hkeys : (source p.base.other).keys p.mode p.batch s.cursor = .ok []) :
    ∃ rest, Step f p source pages s [] [] rest
      (({ s with failures := 0 } : Scan).drained p now) := by
  rw [hside] at hcourse
  rcases hcourse.keys_page hkeys with ⟨_, rfl⟩ | ⟨_, _, hlast, _⟩
  · exact ⟨[], step_drained hi hphase⟩
  · cases hlast

section
variable {row : Interactive} {rows : List Interactive} {held : List Event}
  (hphase : s.phase = .comparing (row :: rows) held)
include hphase

theorem step_find {other : Option Interactive}
    (hfind : (askedUnder f p source s.side).find row.id = .ok other) :
    Step f p source pages s [] [] pages (s.compared rows (held ++ difference p row other)) := by
  have hlength : (held ++ difference p row other).length ≤ held.length + 1 := by
    rw [List.length_append]
    exact Nat.add_le_add_left (length_difference_le p row other) _
  refine .inside (compared_side ..) (compared_cursor ..) hcourse (compared_request _ _ _)
    (work_compared_lt _ _ _ hphase hlength) ?_ ?_
  · rw [pending_comparing _ _ hphase, differences_cons hfind, pending_compared, List.append_assoc,
      List.nil_append]
  · rw [pending_comparing _ _ hphase, pendingFailures_comparing _ _ hphase, differences_cons hfind,
      lookupFailures_cons hfind, pending_compared, pendingFailures_compared, List.nil_append,
      List.append_assoc]

theorem step_findFailed {e : Error}
    (hfind : (askedUnder f p source s.side).find row.id = .error e) : Step f p source pages s []
      [.lookupFailed row.id (p.asked s.side).storeName e] pages (s.compared rows held) := by
  refine .inside (compared_side ..) (compared_cursor ..) hcourse (compared_request _ _ _)
    (work_compared_lt _ _ _ hphase (Nat.le_succ _)) ?_ ?_
  · rw [pending_comparing _ _ hphase, differences_failed hfind, pending_compared, List.nil_append]
  · rw [pending_comparing _ _ hphase, pendingFailures_comparing _ _ hphase,
      differences_failed hfind,
      lookupFailures_failed hfind, pending_compared, pendingFailures_compared]
    rfl

end

section
variable {ids chunk there : List Int} {chunks : List (List Int)}
  (hphase : s.phase = .checking ids (chunk :: chunks) there)
include hphase

theorem step_present {more : List Int}
    (hpresent : (askedUnder f p source s.side).present chunk = .ok more) :
    Step f p source pages s [] [] pages (s.checked p ids chunks (there ++ more)) := by
  refine .inside (checked_side ..) (checked_cursor ..) hcourse (checked_request _ _ _ _ _)
    (work_checked_lt _ _ _ hphase) ?_ ?_
  · rw [pending_checking _ _ hphase, missing_cons hpresent, pending_checked, List.nil_append]
  · rw [pending_checking _ _ hphase, pendingFailures_checking _ _ hphase, missing_cons hpresent,
      presenceFailures_cons hpresent, pending_checked, pendingFailures_checked, List.nil_append]

theorem step_presentFailed {e : Error}
    (hpresent : (askedUnder f p source s.side).present chunk = .error e) :
    Step f p source pages s []
      [.presenceFailed (p.asked s.side).storeName e] pages (s.publish []) := by
  refine .inside (publish_side ..) (publish_cursor ..) hcourse (publish_request _ _)
    (work_publish_nil_lt _ _ hphase) ?_ ?_
  · rw [pending_checking _ _ hphase, missing_failed hpresent, pending_publish, List.nil_append]
  · rw [pending_checking _ _ hphase, pendingFailures_checking _ _ hphase, missing_failed hpresent,
      presenceFailures_failed hpresent, pending_publish, pendingFailures_publish, List.append_nil]

end

section
variable {e : Event} {held : List Event} (hphase : s.phase = .publishing (e :: held))
include hphase

theorem step_publish (hkept : f.kept [e] = [e]) :
    Step f p source pages s [e] [] pages (s.publish held) := by
  have hsplit : e :: held = [e] ++ held := rfl
  refine .inside (publish_side ..) (publish_cursor ..) hcourse (publish_request _ _)
    (work_publish_lt _ _ _ hphase) ?_ ?_
  · rw [pending_publishing _ _ hphase, pending_publish, hsplit, Faults.kept_append, hkept]
  · rw [pending_publishing _ _ hphase, pendingFailures_publishing _ _ hphase, pending_publish,
      pendingFailures_publish, hsplit, Faults.lost_append, Faults.lost_of_kept hkept]
    rfl

theorem step_publishFailed {err : Error} (hf : f.publish e = some err) :
    Step f p source pages s [] [.publishFailed e err] pages (s.publish held) := by
  refine .inside (publish_side ..) (publish_cursor ..) hcourse (publish_request _ _)
    (work_publish_lt _ _ _ hphase) ?_ ?_
  · rw [pending_publishing _ _ hphase, pending_publish, Faults.kept_cons_failed hf, List.nil_append]
  · rw [pending_publishing _ _ hphase, pendingFailures_publishing _ _ hphase, pending_publish,
      pendingFailures_publish, Faults.lost_cons_failed hf]
    rfl

end

end

theorem TurnUnder.step (hi : p.interval = 0) (hbusy : s.request ≠ .nothing)
    (hcourse : Course p source s.side s.cursor pages)
    (ht : TurnUnder f p source now s es ns s') : ∃ rest, Step f p source pages s es ns rest s' := by
  cases ht with
  | turn ht hkept =>
    cases ht with
    | idle hr => exact absurd hr hbusy
    | page hside hphase hpage hlast => exact step_page hcourse hside hphase hpage hlast
    | keys hside hphase hkeys hlast => exact step_keys hcourse hside hphase hkeys hlast
    | pageDrained hside hphase hpage => exact step_pageDrained hcourse hi hside hphase hpage
    | keysDrained hside hphase hkeys => exact step_keysDrained hcourse hi hside hphase hkeys
    | pageFailed hside hphase hpage =>
      obtain ⟨rows, hrows⟩ := (hside ▸ hcourse).page_ok
      cases hrows.symm.trans hpage
    | keysFailed hside hphase hkeys =>
      obtain ⟨ks, hks⟩ := (hside ▸ hcourse).keys_ok
      cases hks.symm.trans hkeys
    | find hphase hfind => exact ⟨pages, step_find hcourse hphase hfind⟩
    | findFailed hphase hfind => exact ⟨pages, step_findFailed hcourse hphase hfind⟩
    | present hphase hpresent => exact ⟨pages, step_present hcourse hphase hpresent⟩
    | presentFailed hphase hpresent => exact ⟨pages, step_presentFailed hcourse hphase hpresent⟩
    | publish hphase => exact ⟨pages, step_publish hcourse hphase hkept⟩
  | publishFailed hphase hf => exact ⟨pages, step_publishFailed hcourse hphase hf⟩

def eventsOf (f : Faults) (p : Plan) (source : Direction → Source) (side : Side)
    (pages : List Page) : List Event :=
  pages.flatMap (Page.events p (askedUnder f p source side))

def noticesOf (f : Faults) (p : Plan) (source : Direction → Source) (side : Side)
    (pages : List Page) : List Notice :=
  pages.flatMap (Page.failures (askedUnder f p source side) (p.asked side).storeName) ++
    f.lost (eventsOf f p source side pages)

/-- A scan on its way: what has been and what is to come make up all of it. -/
structure Underway (f : Faults) (p : Plan) (source : Direction → Source) (side : Side)
    (all : List Page) (turns : Nat) (out : List Event) (ns : List Notice) (s : Scan)
    (rest : List Page) : Prop where
  own : s.side = side
  sent : out ++ f.kept (s.eventsAhead f p source rest) = f.kept (eventsOf f p source side all)
  reported : (ns ++ s.noticesAhead f p source rest).Perm (noticesOf f p source side all)
  course : s.phase = .ended (.ok ()) ∧ rest = [] ∨ Course p source side s.cursor rest ∧
    s.request ≠ .nothing ∧ s.work (left rest) + turns ≤ 1 + 4 * left all

variable {all rest : List Page} {turns : Nat} {out : List Event}

theorem underway_start (h : Course p source side (.start p.mode p.watermark) all) :
    Underway f p source side all 0 [] [] (start p side) all where
  own := rfl
  sent := by simp [eventsAhead, pending, eventsOf, start]
  reported := by
    have hsame : (start p side).noticesAhead f p source all = noticesOf f p source side all := by
      simp [noticesAhead, pendingFailures, eventsAhead, pending, noticesOf, eventsOf, start]
    rw [List.nil_append, hsame]
  course := .inr ⟨h, by cases side <;> simp [request, start], by simp [work, start]⟩

theorem TurnUnder.idle_of_nothing (h : s.request = .nothing)
    (ht : TurnUnder f p source now s es ns s') : es = [] ∧ ns = [] ∧ s' = s := by
  cases ht with
  | turn ht => exact ht.idle_of_nothing h
  | publishFailed hphase => simp [request, hphase] at h

theorem request_ended {r : Except Error Unit} (h : s.phase = .ended r) : s.request = .nothing := by
  cases hs : s.side <;> simp [request, h, hs]

/-- A scan that does not pause is found as it was left. -/
theorem observe_busy (h : s.request ≠ .nothing) (now : Nat) : s.observe false now = s := by
  rcases observe_false now s with he | ⟨⟨t, ht⟩, _⟩
  · exact he
  · exact absurd (by cases hs : s.side <;> simp [request, ht, hs]) h

theorem Underway.turn (h : Underway f p source side all turns out ns s rest) (hi : p.interval = 0)
    {ns' : List Notice} (ht : TurnUnder f p source now (s.observe false now) es ns' s') :
    ∃ rest', Underway f p source side all (turns + 1) (out ++ es) (ns ++ ns') s' rest' := by
  rcases h.course with ⟨hend, hrest⟩ | ⟨hcourse, hbusy, hwork⟩
  · have hsame : s.observe false now = s := by simp [observe, hend]
    rw [hsame] at ht
    obtain ⟨rfl, rfl, rfl⟩ := ht.idle_of_nothing (request_ended hend)
    rw [List.append_nil, List.append_nil]
    exact ⟨rest, h.own, h.sent, h.reported, .inl ⟨hend, hrest⟩⟩
  · rw [observe_busy hbusy] at ht
    obtain ⟨rest', hsent, hreported, honward⟩ := ht.step hi hbusy (h.own ▸ hcourse)
    refine ⟨rest', ht.side_eq.trans h.own, ?_, ?_, ?_⟩
    · rw [List.append_assoc, hsent, h.sent]
    · rw [List.append_assoc]
      exact (hreported.append_left ns).trans h.reported
    · rcases honward with hend | ⟨hcourse', hbusy', hless⟩
      · exact .inl hend
      · exact .inr ⟨h.own ▸ hcourse', hbusy', by omega⟩

theorem Underway.ended (h : Underway f p source side all turns out ns s rest)
    (hmany : 4 * left all < turns) : s.phase = .ended (.ok ()) ∧
      out = f.kept (eventsOf f p source side all) ∧ ns.Perm (noticesOf f p source side all) := by
  rcases h.course with ⟨hend, rfl⟩ | ⟨_, hbusy, hwork⟩
  · have hsent := h.sent
    have hreported := h.reported
    simp only [noticesAhead, eventsAhead, pending, pendingFailures, hend, List.flatMap_nil,
      List.append_nil, Faults.kept_nil, Faults.lost_nil] at hsent hreported
    exact ⟨hend, hsent, hreported⟩
  · have := work_pos (left rest) s hbusy
    omega

/-- Each event of a page is one for its side to report. -/
theorem Course.reports {c : Cursor} (h : Course p source side c pages) :
    ∀ e ∈ eventsOf f p source side pages, side.reports e.kind = true := by
  intro e he
  obtain ⟨page, hpage, he⟩ := List.mem_flatMap.1 he
  cases h with
  | rows h =>
    obtain ⟨rows, _, rfl⟩ := List.mem_map.1 hpage
    obtain ⟨r, _, he⟩ := List.mem_flatMap.1 he
    split at he
    · exact (mem_difference he).2
    · cases he
  | keys h =>
    obtain ⟨ks, _, rfl⟩ := List.mem_map.1 hpage
    rw [Page.events, missing] at he
    split at he
    · obtain ⟨i, _, rfl⟩ := List.mem_map.1 he
      rfl
    · cases he

end Sweeping
end Scan

namespace Scene
open Scan
variable {f : Faults} {w : World} {p : Plan} {pages : Side → List Page} {x : Scene}

/-- A pass over tables that stand still, after some turns of each side. -/
structure Sweep (f : Faults) (w : World) (p : Plan) (pages : Side → List Page) (turns : Side → Nat)
    (notes : Side → List Notice) (x : Scene) : Prop where
  plan : x.validation.plan = p
  uncancelled : x.cancelled = false
  store : ∀ d, x.world.store d = w.store d
  events : x.world.events = w.events ++ x.news w
  notices : ∃ ns, x.world.notices = w.notices ++ ns ∧ ns.Perm (notes .forward ++ notes .reverse)
  scans : ∀ side, ∃ rest, Underway f p w.source side (pages side) (turns side) (x.told w side)
    (notes side) (x.validation.scan side) rest

theorem sweep_start
    (h : ∀ side, Course p w.source side (.start p.mode p.watermark) (pages side)) :
    Sweep f w p pages (fun _ => 0) (fun _ => []) (start w p) where
  plan := rfl
  uncancelled := rfl
  store := fun _ => rfl
  events := by simp [start, news]
  notices := ⟨[], by simp [start], List.Perm.refl _⟩
  scans := by
    intro side
    have htold : (start w p).told w side = [] := by simp [told, start, news]
    rw [htold]
    cases side <;> exact ⟨_, underway_start (h _)⟩

/-- A scan that is under way ends only when it is through. -/
theorem Sweep.ended {turns : Side → Nat} {notes : Side → List Notice}
    (h : Sweep f w p pages turns notes x) (hr : x.validation.result?.isSome) (side : Side) :
    (x.validation.scan side).phase = .ended (.ok ()) := by
  have hunfailed : ∀ side, (x.validation.scan side).Unfailed := by
    intro side e he
    obtain ⟨rest, hscan⟩ := h.scans side
    rcases hscan.course with ⟨hend, _⟩ | ⟨_, hbusy, _⟩
    · rw [hend] at he
      cases he
    · exact hbusy (request_ended he)
  exact (Validation.result?_eq_ok _).1 (x.validation.result?_of_unfailed hunfailed hr) side

theorem Sweep.turn_ended {turns : Side → Nat} {notes : Side → List Notice}
    (h : Sweep f w p pages turns notes x) (hr : x.validation.result?.isSome) (side : Side) :
    Sweep f w p pages (fun other => turns other + if side = other then 1 else 0) notes
      (x.turnUnder f side) := by
  rw [turnUnder_ended f hr]
  refine ⟨h.plan, h.uncancelled, h.store, h.events, h.notices, fun other => ?_⟩
  obtain ⟨rest, hscan⟩ := h.scans other
  rcases hscan.course with hended | ⟨_, hbusy, _⟩
  · exact ⟨rest, hscan.own, hscan.sent, hscan.reported, .inl hended⟩
  · exact absurd (request_ended (h.ended hr other)) hbusy

theorem perm_update_append {notes : Side → List Notice} {all ns : List Notice}
    (h : all.Perm (notes .forward ++ notes .reverse)) (side : Side) :
    (all ++ ns).Perm (Function.update notes side (notes side ++ ns) .forward ++
      Function.update notes side (notes side ++ ns) .reverse) := by
  cases side with
  | forward =>
    change (all ++ ns).Perm ((notes .forward ++ ns) ++ notes .reverse)
    rw [List.append_assoc]
    refine (h.append_right ns).trans ?_
    rw [List.append_assoc]
    exact List.perm_append_comm.append_left _
  | reverse =>
    change (all ++ ns).Perm (notes .forward ++ (notes .reverse ++ ns))
    rw [← List.append_assoc]
    exact h.append_right ns

theorem Sweep.turn {turns : Side → Nat} {notes : Side → List Notice}
    (h : Sweep f w p pages turns notes x) (hi : p.interval = 0)
    (hreports : ∀ side, ∀ e ∈ eventsOf f p w.source side (pages side), side.reports e.kind = true)
    (side : Side) : ∃ notes', Sweep f w p pages
      (fun other => turns other + if side = other then 1 else 0) notes' (x.turnUnder f side) := by
  by_cases hr : x.validation.result?.isSome
  · exact ⟨notes, h.turn_ended hr side⟩
  · obtain ⟨es, ns, s, turn, he⟩ := turnUnder_turn f side (Option.not_isSome_iff_eq_none.1 hr)
    have hsource : x.world.source = w.source := by
      funext d
      rw [World.source, World.source, h.store]
    rw [h.plan, hsource, observed, h.uncancelled] at turn
    obtain ⟨rest, hscan⟩ := h.scans side
    obtain ⟨rest', hafter⟩ := hscan.turn hi turn
    have hevents : (x.turnUnder f side).world.events = x.world.events ++ es := by
      rw [he]
      rfl
    have hnews := news_append h.events hevents
    have hkind : ∀ e ∈ es, side.reports e.kind = true := by
      intro e hin
      apply hreports side e
      have hmem : e ∈ f.kept (eventsOf f p w.source side (pages side)) := by
        rw [← hafter.sent]
        exact List.mem_append_left _ (List.mem_append_right _ hin)
      exact (List.mem_filter.1 hmem).1
    obtain ⟨htold, hothers⟩ := told_append hnews hkind
    have hplan : (x.turnUnder f side).validation.plan = p := by
      rw [he]
      exact (Validation.setScan_plan ..).trans h.plan
    refine ⟨Function.update notes side (notes side ++ ns), hplan, ?_, ?_, ?_, ?_, ?_⟩
    · rw [he]
      exact h.uncancelled
    · intro d
      rw [he]
      exact h.store d
    · rw [hevents, hnews, ← List.append_assoc, ← h.events]
    · obtain ⟨new, hnew, hperm⟩ := h.notices
      refine ⟨new ++ ns, ?_, perm_update_append hperm side⟩
      rw [he, ← List.append_assoc, ← hnew]
      rfl
    · have hv : (x.turnUnder f side).validation = x.validation.setScan s side := by rw [he]
      rw [hv]
      refine Validation.forall_setScan (P := fun other s => ∃ rest, Underway f p w.source other
        (pages other) (turns other + if side = other then 1 else 0)
        ((x.turnUnder f side).told w other)
        (Function.update notes side (notes side ++ ns) other) s rest) ?_ ?_
      · rw [htold, if_pos rfl, Function.update_self]
        exact ⟨rest', hafter⟩
      · intro other ho
        rw [hothers other ho, if_neg (Ne.symm ho), Function.update_of_ne ho]
        exact h.scans other

theorem sweep_turns (hi : p.interval = 0)
    (hcourse : ∀ side, Course p w.source side (.start p.mode p.watermark) (pages side))
    (turns : List Side) :
    ∃ notes, Sweep f w p pages (fun side => turns.count side) notes
      ((start w p).runUnder f turns) := by
  induction turns using List.reverseRecOn with
  | nil => exact ⟨_, sweep_start hcourse⟩
  | append_singleton turns side ih =>
    obtain ⟨notes, h⟩ := ih
    obtain ⟨notes', hnext⟩ := h.turn hi (fun side => (hcourse side).reports) side
    have hcount : (fun other => (turns ++ [side]).count other) =
        fun other => turns.count other + if side = other then 1 else 0 := by
      funext other
      rw [List.count_append, List.count_singleton]
      simp
    rw [runUnder_concat, hcount]
    exact ⟨notes', hnext⟩

/-- What a pass comes to, with turns enough for both sides and whatever fails of what it asks. -/
theorem sweep_run (hi : p.interval = 0)
    (hcourse : ∀ side, Course p w.source side (.start p.mode p.watermark) (pages side))
    {turns : List Side} (hturns : ∀ side, 4 * left (pages side) < turns.count side) :
    let x := (start w p).runUnder f turns
    x.validation.result? = some (.ok ()) ∧ (∀ d, x.world.store d = w.store d) ∧
      (∀ side, x.told w side = f.kept (eventsOf f p w.source side (pages side))) ∧
      ∃ ns, x.world.notices = w.notices ++ ns ∧
        ns.Perm (noticesOf f p w.source .forward (pages .forward) ++
          noticesOf f p w.source .reverse (pages .reverse)) := by
  intro x
  obtain ⟨notes, h⟩ := sweep_turns (f := f) hi hcourse turns
  have hended : ∀ side, (x.validation.scan side).phase = .ended (.ok ()) ∧
      x.told w side = f.kept (eventsOf f p w.source side (pages side)) ∧
      (notes side).Perm (noticesOf f p w.source side (pages side)) := by
    intro side
    obtain ⟨rest, hscan⟩ := h.scans side
    exact hscan.ended (hturns side)
  obtain ⟨ns, hns, hperm⟩ := h.notices
  exact ⟨(Validation.result?_eq_ok _).2 fun side => (hended side).1, h.store,
    fun side => (hended side).2.1, ns, hns,
    hperm.trans ((hended .forward).2.2.append (hended .reverse).2.2)⟩

end Scene
end DualWrite
