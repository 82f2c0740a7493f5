import DualWrite.Validation.Source

/-!
# Scans

A scan goes through one table page by page and asks the other store about the rows of each page. The
forward scan reports rows that the target lacks or holds with other contents, the reverse scan
reports ids that the base lacks. A scan is a machine: it makes a request, and the reply moves it.
-/
namespace DualWrite

/-- What a validation is to do. -/
structure Plan where
  /-- The store that is taken as right. -/
  base : Direction
  /-- The direction that events carry. -/
  label : Direction
  mode : ScanMode
  watermark : Int
  /-- Rows in a page, at least one. -/
  batch : Int
  /-- Milliseconds between polling cycles; without any, one pass is made. -/
  interval : Nat
deriving Repr, DecidableEq

inductive Phase where
  /-- At the top of the loop, before the next page. -/
  | ready
  /-- Looking up rows of a page in the target, with the events found so far. -/
  | comparing (rows : List Interactive) (found : List Event)
  /-- Looking up the ids of a page in the base, chunk by chunk, with the ids found so far. -/
  | checking (ids : List Int) (chunks : List (List Int)) (present : List Int)
  | publishing (events : List Event)
  | pausing (until' : Nat)
  | ended (result : Except Error Unit)

structure Scan where
  side : Side
  cursor : Cursor
  /-- Failed page reads in a row. -/
  failures : Nat
  phase : Phase

inductive Request where
  | page (cursor : Cursor)
  | keys (cursor : Cursor)
  | find (id : Int)
  | present (ids : List Int)
  | publish (event : Event)
  | nothing
deriving Repr, DecidableEq

inductive Reply where
  | page (r : Except Error (List Interactive))
  | keys (r : Except Error (List (Int × Int)))
  | find (r : Except Error (Option Interactive))
  | present (r : Except Error (List Int))
  | publish (r : Except Error Unit)

namespace Plan

/-- Pages of as many rows as are asked for, and of one row at least. -/
def withBatch (p : Plan) (n : Int) : Plan := { p with batch := max n 1 }

/-- The store whose table a scan goes through. -/
def scanned (p : Plan) : Side → Direction
  | .forward => p.base
  | .reverse => p.base.other

/-- The store that a scan asks about what it has read. -/
def asked (p : Plan) (s : Side) : Direction := (p.scanned s).other

def event (p : Plan) (kind : Event.Kind) (id : Int) : Event := ⟨id, p.label.name, kind⟩

end Plan

/-- Ids looked up at once. -/
def chunkSize : Nat := 500

/-- Most failures of one page before a single pass gives up. -/
def maxAttempts : Nat := 3

/-- Least number of milliseconds before a failed page is read again. -/
def retryPause : Nat := 200

/-- Pieces of a list, all but the last of one positive length. -/
def chunks {α : Type} (n : Nat) : List α → List (List α)
  | [] => []
  | x :: xs => (x :: xs.take (n - 1)) :: chunks n (xs.drop (n - 1))
termination_by xs => xs.length
decreasing_by simp only [List.length_drop, List.length_cons]; omega

namespace Scan

def start (p : Plan) (side : Side) : Scan := ⟨side, .start p.mode p.watermark, 0, .ready⟩

def isEnded (s : Scan) : Bool := match s.phase with | .ended _ => true | _ => false

def endWith (s : Scan) (r : Except Error Unit) : Scan := { s with phase := .ended r }

/-- What a scan makes of the time and of its token before it goes on. -/
def observe (cancelled : Bool) (now : Nat) (s : Scan) : Scan :=
  match s.phase with
  | .ready => if cancelled then s.endWith (.ok ()) else s
  | .pausing t =>
    if cancelled then s.endWith (.ok ()) else if t ≤ now then { s with phase := .ready } else s
  | _ => s

def request (s : Scan) : Request :=
  match s.side, s.phase with
  | .forward, .ready => .page s.cursor
  | .reverse, .ready => .keys s.cursor
  | _, .comparing (r :: _) _ => .find r.id
  | _, .checking _ (c :: _) _ => .present c
  | _, .publishing (e :: _) => .publish e
  | _, _ => .nothing

def publish (s : Scan) (events : List Event) : Scan :=
  { s with phase := if events = [] then .ready else .publishing events }

/-- A failed page is read again after a pause, unless a single pass has tried often enough. -/
def backOff (p : Plan) (now : Nat) (s : Scan) (e : Error) : Scan × List Notice :=
  let s := { s with failures := s.failures + 1 }
  let notice := .pageFailed s.side s.cursor.id (p.scanned s.side).storeName s.failures e
  if p.interval = 0 && maxAttempts ≤ s.failures then (s.endWith (.error e), [notice])
  else ({ s with phase := .pausing (now + max p.interval retryPause) }, [notice])

/-- The table is exhausted: a single pass ends here, others wait for the next cycle. -/
def drained (p : Plan) (now : Nat) (s : Scan) : Scan :=
  if p.interval = 0 then s.endWith (.ok ())
  else { s with cursor := s.cursor.restart p.mode, phase := .pausing (now + p.interval) }

def onPage (p : Plan) (now : Nat) (s : Scan) : Except Error (List Interactive) → Scan × List Notice
  | .error e => s.backOff p now e
  | .ok rows =>
    let s := { s with failures := 0 }
    match rows.getLast? with
    | none => (s.drained p now, [])
    | some last =>
      ({ s with cursor := s.cursor.advance last.uTime last.id, phase := .comparing rows [] }, [])

def onKeys (p : Plan) (now : Nat) (s : Scan) : Except Error (List (Int × Int)) → Scan × List Notice
  | .error e => s.backOff p now e
  | .ok keys =>
    let s := { s with failures := 0 }
    match keys.getLast? with
    | none => (s.drained p now, [])
    | some (id, utime) =>
      let ids := keys.map (·.1)
      ({ s with
        cursor := s.cursor.advance utime id
        phase := .checking ids (chunks chunkSize ids) [] }, [])

/-- What a row of the base and its counterpart in the target amount to. -/
def difference (p : Plan) (row : Interactive) : Option Interactive → List Event
  | none => [p.event .targetMissing row.id]
  | some other => if row = other then [] else [p.event .unequal row.id]

def onFind (p : Plan) (s : Scan) (r : Except Error (Option Interactive)) : Scan × List Notice :=
  match s.phase with
  | .comparing (row :: rows) found =>
    let (found, notices) := match r with
      | .ok other => (found ++ difference p row other, [])
      | .error e => (found, [Notice.lookupFailed row.id (p.asked s.side).storeName e])
    (if rows = [] then s.publish found else { s with phase := .comparing rows found }, notices)
  | _ => (s, [])

def onPresent (p : Plan) (s : Scan) (r : Except Error (List Int)) : Scan × List Notice :=
  match s.phase, r with
  | .checking ids (_ :: rest) present, .ok more =>
    let present := present ++ more
    if rest = [] then
      (s.publish ((ids.filter (· ∉ present)).map (p.event .baseMissing)), [])
    else ({ s with phase := .checking ids rest present }, [])
  | .checking .., .error e => (s.publish [], [.presenceFailed (p.asked s.side).storeName e])
  | _, _ => (s, [])

def onPublish (s : Scan) (r : Except Error Unit) : Scan × List Notice :=
  match s.phase with
  | .publishing (e :: rest) =>
    (s.publish rest, match r with | .ok () => [] | .error err => [.publishFailed e err])
  | _ => (s, [])

/-- Moves a scan by the reply to its request. -/
def receive (p : Plan) (now : Nat) (s : Scan) : Reply → Scan × List Notice
  | .page r => s.onPage p now r
  | .keys r => s.onKeys p now r
  | .find r => s.onFind p r
  | .present r => s.onPresent p r
  | .publish r => s.onPublish r

/-- The reply of the two stores to a request that reads. -/
def reply (p : Plan) (source : Direction → Source) (side : Side) : Request → Option Reply
  | .page c => some (.page ((source (p.scanned side)).page p.mode p.batch c))
  | .keys c => some (.keys ((source (p.scanned side)).keys p.mode p.batch c))
  | .find id => some (.find ((source (p.asked side)).find id))
  | .present ids => some (.present ((source (p.asked side)).present ids))
  | .publish _ | .nothing => none

end Scan

/-- Both scans of one validation. -/
structure Validation where
  plan : Plan
  forward : Scan
  reverse : Scan

namespace Validation

def start (p : Plan) : Validation := ⟨p, .start p .forward, .start p .reverse⟩

def scan (v : Validation) : Side → Scan
  | .forward => v.forward
  | .reverse => v.reverse

def setScan (v : Validation) (s : Scan) : Side → Validation
  | .forward => { v with forward := s }
  | .reverse => { v with reverse := s }

/-- The first failure ends a validation; otherwise it ends with both scans. -/
def result? (v : Validation) : Option (Except Error Unit) :=
  match v.forward.phase, v.reverse.phase with
  | .ended (.error e), _ => some (.error e)
  | _, .ended (.error e) => some (.error e)
  | .ended (.ok ()), .ended (.ok ()) => some (.ok ())
  | _, _ => none

/-- The next time at which a pausing scan goes on. -/
def wakes (v : Validation) : List Nat :=
  [v.forward, v.reverse].filterMap fun s => match s.phase with | .pausing t => some t | _ => none

def announcement (v : Validation) : Notice :=
  .validating v.plan.mode v.plan.label v.plan.base.storeName v.plan.base.other.storeName

end Validation

end DualWrite
