import DualWrite.Control.World

/-!
# The turns of a scan

A turn is one request of a scan with its answer. `Turn` lists every turn there is: what is asked,
what is answered, which event is sent, what is reported, and where the scan then stands.
-/
namespace DualWrite.Scan

def found (s : Scan) : List Event :=
  match s.phase with
  | .comparing _ found => found
  | .publishing events => events
  | _ => []

def toFind (s : Scan) : List Interactive :=
  match s.phase with
  | .comparing rows _ => rows
  | _ => []

/-- Ids of the page at hand while they are looked up. -/
def toCheck (s : Scan) : List Int :=
  match s.phase with
  | .checking ids _ _ => ids
  | _ => []

/-- The next row is to be looked up, or everything found is to be sent. -/
def compared (s : Scan) (rows : List Interactive) (found : List Event) : Scan :=
  if rows = [] then s.publish found else { s with phase := .comparing rows found }

/-- The next chunk is to be looked up, or the ids that are not there are to be reported. -/
def checked (p : Plan) (s : Scan) (ids : List Int) (chunks : List (List Int)) (present : List Int) :
    Scan :=
  if chunks = [] then s.publish ((ids.filter (· ∉ present)).map (p.event .baseMissing))
  else { s with phase := .checking ids chunks present }

def sent (s : Scan) : List Event :=
  match s.request with
  | .publish e => [e]
  | _ => []

def served (p : Plan) (source : Direction → Source) (now : Nat) (s : Scan) : Scan × List Notice :=
  match s.request with
  | .publish _ => s.onPublish (.ok ())
  | r =>
    match reply p source s.side r with
    | some answer => s.receive p now answer
    | none => (s, [])

def Unfailed (s : Scan) : Prop := ∀ e, s.phase ≠ .ended (.error e)

section
variable (s : Scan) (es : List Event)

theorem unfailed_of_isEnded (h : s.isEnded = false) : s.Unfailed := by
  intro e he
  simp [isEnded, he] at h

@[simp] theorem publish_cursor : (s.publish es).cursor = s.cursor := rfl
@[simp] theorem publish_side : (s.publish es).side = s.side := rfl
@[simp] theorem publish_found : (s.publish es).found = es := by
  by_cases h : es = [] <;> simp [publish, found, h]
@[simp] theorem publish_toFind : (s.publish es).toFind = [] := by
  by_cases h : es = [] <;> simp [publish, toFind, h]
@[simp] theorem publish_toCheck : (s.publish es).toCheck = [] := by
  by_cases h : es = [] <;> simp [publish, toCheck, h]
@[simp] theorem publish_isEnded : (s.publish es).isEnded = false := by
  by_cases h : es = [] <;> simp [publish, isEnded, h]

variable (rows : List Interactive)

@[simp] theorem compared_cursor : (s.compared rows es).cursor = s.cursor := by
  by_cases h : rows = [] <;> simp [compared, h]
@[simp] theorem compared_side : (s.compared rows es).side = s.side := by
  by_cases h : rows = [] <;> simp [compared, h]
@[simp] theorem compared_found : (s.compared rows es).found = es := by
  by_cases h : rows = []
  · simp [compared, h]
  · simp [compared, h, found]
@[simp] theorem compared_toFind : (s.compared rows es).toFind = rows := by
  by_cases h : rows = []
  · simp [compared, h]
  · simp [compared, h, toFind]
@[simp] theorem compared_toCheck : (s.compared rows es).toCheck = [] := by
  by_cases h : rows = []
  · simp [compared, h]
  · simp [compared, h, toCheck]
@[simp] theorem compared_isEnded : (s.compared rows es).isEnded = false := by
  by_cases h : rows = []
  · simp [compared, h]
  · simp [compared, h, isEnded]

variable (p : Plan) (ids present : List Int) (chunks : List (List Int))

@[simp] theorem checked_cursor : (s.checked p ids chunks present).cursor = s.cursor := by
  by_cases h : chunks = [] <;> simp [checked, h]
@[simp] theorem checked_side : (s.checked p ids chunks present).side = s.side := by
  by_cases h : chunks = [] <;> simp [checked, h]
@[simp] theorem checked_toFind : (s.checked p ids chunks present).toFind = [] := by
  by_cases h : chunks = []
  · simp [checked, h]
  · simp [checked, h, toFind]
@[simp] theorem checked_found : (s.checked p ids chunks present).found =
    if chunks = [] then (ids.filter (· ∉ present)).map (p.event .baseMissing) else [] := by
  by_cases h : chunks = []
  · simp [checked, h]
  · simp [checked, h, found]
@[simp] theorem checked_toCheck :
    (s.checked p ids chunks present).toCheck = if chunks = [] then [] else ids := by
  by_cases h : chunks = []
  · simp [checked, h]
  · simp [checked, h, toCheck]
@[simp] theorem checked_isEnded : (s.checked p ids chunks present).isEnded = false := by
  by_cases h : chunks = []
  · simp [checked, h]
  · simp [checked, h, isEnded]

end

/-- The turns of a scan: before, the event sent, what is reported, after. -/
inductive Turn (p : Plan) (source : Direction → Source) (now : Nat) :
    Scan → List Event → List Notice → Scan → Prop where
  | idle {s} : s.request = .nothing → Turn p source now s [] [] s
  | page {s rows last} : s.side = .forward → s.phase = .ready →
      (source p.base).page p.mode p.batch s.cursor = .ok rows → rows.getLast? = some last →
      Turn p source now s [] [] { s with
        failures := 0, cursor := s.cursor.advance last.uTime last.id, phase := .comparing rows [] }
  | keys {s ks last} : s.side = .reverse → s.phase = .ready →
      (source p.base.other).keys p.mode p.batch s.cursor = .ok ks → ks.getLast? = some last →
      Turn p source now s [] [] { s with
        failures := 0, cursor := s.cursor.advance last.2 last.1,
        phase := .checking (ks.map (·.1)) (chunks chunkSize (ks.map (·.1))) [] }
  | pageDrained {s} : s.side = .forward → s.phase = .ready →
      (source p.base).page p.mode p.batch s.cursor = .ok [] →
      Turn p source now s [] [] (({ s with failures := 0 } : Scan).drained p now)
  | keysDrained {s} : s.side = .reverse → s.phase = .ready →
      (source p.base.other).keys p.mode p.batch s.cursor = .ok [] →
      Turn p source now s [] [] (({ s with failures := 0 } : Scan).drained p now)
  | pageFailed {s e} : s.side = .forward → s.phase = .ready →
      (source p.base).page p.mode p.batch s.cursor = .error e →
      Turn p source now s [] (s.backOff p now e).2 (s.backOff p now e).1
  | keysFailed {s e} : s.side = .reverse → s.phase = .ready →
      (source p.base.other).keys p.mode p.batch s.cursor = .error e →
      Turn p source now s [] (s.backOff p now e).2 (s.backOff p now e).1
  | find {s row rows found other} : s.phase = .comparing (row :: rows) found →
      (source (p.asked s.side)).find row.id = .ok other →
      Turn p source now s [] [] (s.compared rows (found ++ difference p row other))
  | findFailed {s row rows found e} : s.phase = .comparing (row :: rows) found →
      (source (p.asked s.side)).find row.id = .error e →
      Turn p source now s [] [.lookupFailed row.id (p.asked s.side).storeName e]
        (s.compared rows found)
  | present {s ids chunk chunks present more} : s.phase = .checking ids (chunk :: chunks) present →
      (source (p.asked s.side)).present chunk = .ok more →
      Turn p source now s [] [] (s.checked p ids chunks (present ++ more))
  | presentFailed {s ids chunk chunks present e} :
    s.phase = .checking ids (chunk :: chunks) present →
      (source (p.asked s.side)).present chunk = .error e →
      Turn p source now s [] [.presenceFailed (p.asked s.side).storeName e] (s.publish [])
  | publish {s e es} : s.phase = .publishing (e :: es) →
      Turn p source now s [e] [] (s.publish es)

section
variable {p : Plan} {source : Direction → Source} {now : Nat}

@[simp] theorem drained_side (s : Scan) : (s.drained p now).side = s.side := by
  rw [drained]; split <;> rfl

@[simp] theorem backOff_side (s : Scan) (e : Error) : (s.backOff p now e).1.side = s.side := by
  simp only [backOff]; split <;> rfl

theorem drained_cursor (hp : p.mode = .full) (s : Scan) : (s.drained p now).cursor = s.cursor := by
  rw [drained]
  split
  · rfl
  · simp [hp, Cursor.restart]

@[simp] theorem backOff_cursor (s : Scan) (e : Error) :
    (s.backOff p now e).1.cursor = s.cursor := by
  simp only [backOff]; split <;> rfl

theorem drained_hand (s : Scan) : (s.drained p now).found = [] ∧ (s.drained p now).toFind = [] ∧
    (s.drained p now).toCheck = [] := by
  rw [drained]; split <;> exact ⟨rfl, rfl, rfl⟩

theorem backOff_hand (s : Scan) (e : Error) : (s.backOff p now e).1.found = [] ∧
    (s.backOff p now e).1.toFind = [] ∧ (s.backOff p now e).1.toCheck = [] := by
  simp only [backOff]; split <;> exact ⟨rfl, rfl, rfl⟩

theorem Turn.side_eq {s s' : Scan} {es : List Event} {ns : List Notice}
    (h : Turn p source now s es ns s') : s'.side = s.side := by
  cases h <;> simp

theorem Turn.cursor_eq {s s' : Scan} {es : List Event} {ns : List Notice}
    (h : Turn p source now s es ns s') (hr : s.phase ≠ .ready) : s'.cursor = s.cursor := by
  cases h <;> simp_all

/-- The cursor moves to the last row of a page, or steps back behind an empty one. -/
theorem Turn.cursor_page {s s' : Scan} {es : List Event} {ns : List Notice}
    {rows : List Interactive}
    (h : Turn p source now s es ns s') (hside : s.side = .forward) (hr : s.phase = .ready)
    (hpage : (source p.base).page p.mode p.batch s.cursor = .ok rows) (hi : p.interval ≠ 0) :
    rows = [] ∧ s'.cursor = s.cursor.restart p.mode ∨
      ∃ last, rows.getLast? = some last ∧ s'.cursor = s.cursor.advance last.uTime last.id := by
  cases h with
  | page _ _ hpage' hlast =>
    obtain rfl := Except.ok.inj (hpage.symm.trans hpage')
    exact .inr ⟨_, hlast, rfl⟩
  | pageDrained _ _ hpage' =>
    obtain rfl := Except.ok.inj (hpage.symm.trans hpage')
    exact .inl ⟨rfl, by simp [drained, hi]⟩
  | idle hn => simp [request, hside, hr] at hn
  | _ => simp_all

theorem backOff_reports (s : Scan) (e : Error) : (s.backOff p now e).2 ≠ [] := by
  simp only [backOff]; split <;> exact List.cons_ne_nil _ _

theorem drained_unfailed (s : Scan) : (s.drained p now).Unfailed := by
  rw [drained]
  split
  · intro e he
    cases Phase.ended.inj he
  · intro e he
    cases he

theorem Turn.unfailed {s s' : Scan} {es : List Event} {ns : List Notice}
    (h : Turn p source now s es ns s') (hs : s.Unfailed) (hn : ns = []) : s'.Unfailed := by
  cases h with
  | idle => exact hs
  | page => exact unfailed_of_isEnded _ rfl
  | keys => exact unfailed_of_isEnded _ rfl
  | pageDrained => exact drained_unfailed _
  | keysDrained => exact drained_unfailed _
  | pageFailed | keysFailed => exact absurd hn (backOff_reports _ _)
  | find => exact unfailed_of_isEnded _ (compared_isEnded ..)
  | findFailed => cases hn
  | present => exact unfailed_of_isEnded _ (checked_isEnded ..)
  | presentFailed => cases hn
  | publish => exact unfailed_of_isEnded _ (publish_isEnded ..)

end

variable (p : Plan) (source : Direction → Source) (now : Nat)

theorem turn_ready {s : Scan} (h : s.phase = .ready) :
    Turn p source now s s.sent (s.served p source now).2 (s.served p source now).1 := by
  rcases s with ⟨side, cursor, failures, phase⟩
  obtain rfl : phase = .ready := h
  cases side with
  | forward =>
    rcases hp : (source p.base).page p.mode p.batch cursor with e | rows
    · have : Turn p source now ⟨.forward, cursor, failures, .ready⟩ _ _ _ := .pageFailed rfl rfl hp
      simpa only [sent, served, request, reply, receive, Plan.scanned, hp, onPage] using this
    · rcases hl : rows.getLast? with _ | last
      · obtain rfl := List.getLast?_eq_none_iff.1 hl
        have : Turn p source now ⟨.forward, cursor, failures, .ready⟩ _ _ _ :=
          .pageDrained rfl rfl hp
        simpa only [sent, served, request, reply, receive, Plan.scanned, hp, onPage, hl] using this
      · have : Turn p source now ⟨.forward, cursor, failures, .ready⟩ _ _ _ := .page rfl rfl hp hl
        simpa only [sent, served, request, reply, receive, Plan.scanned, hp, onPage, hl] using this
  | reverse =>
    rcases hp : (source p.base.other).keys p.mode p.batch cursor with e | ks
    · have : Turn p source now ⟨.reverse, cursor, failures, .ready⟩ _ _ _ := .keysFailed rfl rfl hp
      simpa only [sent, served, request, reply, receive, Plan.scanned, hp, onKeys] using this
    · rcases hl : ks.getLast? with _ | last
      · obtain rfl := List.getLast?_eq_none_iff.1 hl
        have : Turn p source now ⟨.reverse, cursor, failures, .ready⟩ _ _ _ :=
          .keysDrained rfl rfl hp
        simpa only [sent, served, request, reply, receive, Plan.scanned, hp, onKeys, hl] using this
      · have : Turn p source now ⟨.reverse, cursor, failures, .ready⟩ _ _ _ := .keys rfl rfl hp hl
        simpa only [sent, served, request, reply, receive, Plan.scanned, hp, onKeys, hl] using this

theorem turn_nothing {s : Scan} (h : s.request = .nothing) :
    Turn p source now s s.sent (s.served p source now).2 (s.served p source now).1 := by
  simpa only [sent, served, h, reply] using (Turn.idle h : Turn p source now s _ _ _)

/-- Whatever a scan does when it is served is one of its turns. -/
theorem turn_served (s : Scan) :
    Turn p source now s s.sent (s.served p source now).2 (s.served p source now).1 := by
  rcases s with ⟨side, cursor, failures, phase⟩
  cases phase with
  | ready => exact turn_ready p source now rfl
  | pausing t => exact turn_nothing p source now (by cases side <;> rfl)
  | ended r => exact turn_nothing p source now (by cases side <;> rfl)
  | comparing rows found =>
    cases rows with
    | nil => exact turn_nothing p source now (by cases side <;> rfl)
    | cons row rows =>
      let s : Scan := ⟨side, cursor, failures, .comparing (row :: rows) found⟩
      have hr : s.request = .find row.id := by cases side <;> rfl
      rcases hf : (source (p.asked side)).find row.id with e | other
      · have : Turn p source now s _ _ _ := .findFailed rfl hf
        simpa only [s, sent, served, hr, reply, receive, hf, onFind, compared] using this
      · have : Turn p source now s _ _ _ := .find rfl hf
        simpa only [s, sent, served, hr, reply, receive, hf, onFind, compared] using this
  | checking ids chunks present =>
    cases chunks with
    | nil => exact turn_nothing p source now (by cases side <;> rfl)
    | cons chunk chunks =>
      let s : Scan := ⟨side, cursor, failures, .checking ids (chunk :: chunks) present⟩
      have hr : s.request = .present chunk := by cases side <;> rfl
      rcases hf : (source (p.asked side)).present chunk with e | more
      · have : Turn p source now s _ _ _ := .presentFailed rfl hf
        simpa only [s, sent, served, hr, reply, receive, hf, onPresent] using this
      · have : Turn p source now s _ _ _ := .present rfl hf
        cases chunks with
        | nil => simpa only [s, sent, served, hr, reply, receive, hf, onPresent, checked,
          if_true] using this
        | cons c cs =>
          simpa only [s, sent, served, hr, reply, receive, hf, onPresent, checked, reduceCtorEq,
            if_false] using this
  | publishing events =>
    cases events with
    | nil => exact turn_nothing p source now (by cases side <;> rfl)
    | cons e es =>
      let s : Scan := ⟨side, cursor, failures, .publishing (e :: es)⟩
      have hr : s.request = .publish e := by cases side <;> rfl
      have : Turn p source now s _ _ _ := .publish rfl
      simpa only [s, sent, served, hr, onPublish] using this

end DualWrite.Scan
