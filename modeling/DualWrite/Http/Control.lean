import DualWrite.Control.Scheduler
import DualWrite.Http.MediaType
import DualWrite.Json.Record

/-!
# The control plane over HTTP

`route` decides what a request asks for: one call of the control plane, or a refusal. Only the start
of an incremental run reads the body. `handle` makes the call and answers.
-/
namespace DualWrite.Http

structure Request where
  method : String
  path : String
  contentType : Option String
  body : List UInt8
deriving Repr, DecidableEq

structure Response where
  status : Nat
  allow : Option String
  contentType : Option String
  body : List UInt8
deriving Repr, DecidableEq

/-- A call of the control plane. -/
inductive Call where
  | switchTo (p : Pattern)
  | startFull
  | stopFull
  | startIncremental (utime interval : Int)
  | stopIncremental
  | status
deriving Repr, DecidableEq

/-- What stands at a path. -/
inductive Resource where
  | command (c : Call)
  | startIncremental
  | status
deriving Repr, DecidableEq

def Resource.ofPath? (path : String) : Option Resource :=
  match path with
  | "/src_only" => some (.command (.switchTo .srcOnly))
  | "/src_first" => some (.command (.switchTo .srcFirst))
  | "/dst_first" => some (.command (.switchTo .dstFirst))
  | "/dst_only" => some (.command (.switchTo .dstOnly))
  | "/full/start" => some (.command .startFull)
  | "/full/stop" => some (.command .stopFull)
  | "/incr/start" => some .startIncremental
  | "/incr/stop" => some (.command .stopIncremental)
  | "/status" => some .status
  | _ => none

def textResponse (status : Nat) (text : String) : Response :=
  ⟨status, none, some "text/plain; charset=utf-8", Text.Utf8.ofString text⟩

def jsonResponse (status : Nat) (text : String) : Response :=
  ⟨status, none, some "application/json", Text.Utf8.ofString text⟩

def notFound : Response := ⟨404, none, none, []⟩

def notAllowed (methods : String) : Response := ⟨405, some methods, none, []⟩

/-- The body of an answer that is a code and a message. -/
def codeBody (code : Nat) (message : String) : String :=
  "\x7b\"code\":" ++ toString code ++ ",\"msg\":\"" ++ message ++ "\"\x7d"

def done : Response := jsonResponse 200 (codeBody 0 "OK")

def systemError : Response := jsonResponse 500 (codeBody 5 "system error")

/-- The members that start an incremental run. -/
def startFields : List (Json.Field Int) := [⟨"utime", Json.integer⟩, ⟨"interval", Json.integer⟩]

def startReader : Json.Reader (List (String × Int)) :=
  Json.record "struct StartIncrRequest" startFields

/-- Why a body was refused; a path leads to the member at fault. -/
def bodyRefused (e : Json.Error) : Response :=
  let place := if e.path = [] then "" else Json.pathText e.path ++ ": "
  if e.cause.isData then
    textResponse 422
      ("Failed to deserialize the JSON body into the target type: " ++ place ++ e.message)
  else textResponse 400 ("Failed to parse the request body as JSON: " ++ place ++ e.message)

def isJsonType (contentType : Option String) : Bool :=
  (contentType.bind MediaType.parse).any MediaType.isJson

/-- The call that a body asks for. -/
def startCall (r : Request) : Except Response Call :=
  if !isJsonType r.contentType then
    .error (textResponse 415 "Expected request with `Content-Type: application/json`")
  else match Json.document startReader r.body with
    | .error e => .error (bodyRefused e)
    | .ok ps => .ok (.startIncremental ((ps.lookup "utime").getD 0) ((ps.lookup "interval").getD 0))

/-- The path without a query. -/
def barePath (path : String) : String := String.ofList (path.toList.takeWhile (· ≠ '?'))

def route (r : Request) : Except Response Call :=
  match Resource.ofPath? (barePath r.path) with
  | none => .error notFound
  | some .status =>
    if r.method = "GET" || r.method = "HEAD" then .ok .status else .error (notAllowed "GET,HEAD")
  | some (.command c) => if r.method = "POST" then .ok c else .error (notAllowed "POST")
  | some .startIncremental => if r.method = "POST" then startCall r else .error (notAllowed "POST")

/-- What a failed call was to do. -/
def Call.action : Call → String
  | .switchTo p => "switch to " ++ p.name
  | .startFull => "start full validation"
  | .stopFull => "stop full validation"
  | .startIncremental .. => "start incremental validation"
  | .stopIncremental => "stop incremental validation"
  | .status => "read scheduler status"

/-- Makes a call that answers nothing. -/
def Call.run (c : ControlPlane) : Call → Outcome ControlPlane Unit
  | .switchTo p => c.switchPattern p
  | .startFull => c.startFull
  | .stopFull => c.stop .full
  | .startIncremental utime interval => c.startIncremental utime interval
  | .stopIncremental => c.stop .incremental
  | .status => ⟨c, .ok (), []⟩

def boolText (b : Bool) : String := if b then "true" else "false"

def statusBody (s : Status) : String :=
  "\x7b\"pattern\":" ++ s.pattern.toJson ++ ",\"full_running\":" ++ boolText s.fullRunning
    ++ ",\"incr_running\":" ++ boolText s.incrementalRunning ++ "\x7d"

/-- A response to `HEAD` has no body. -/
def withoutBody (r : Request) (a : Response) : Response :=
  if r.method = "HEAD" then { a with body := [] } else a

/-- Answers a request; what was called and what it reported come along. -/
def handle (c : ControlPlane) (r : Request) : ControlPlane × Response × List Notice :=
  match route r with
  | .error refusal => (c, withoutBody r refusal, [])
  | .ok .status =>
    let o := c.status
    match o.result with
    | .ok s => (o.after, withoutBody r (jsonResponse 200 (statusBody s)), o.notices)
    | .error e => (o.after, withoutBody r systemError, o.notices ++ [.statusFailed e])
  | .ok call =>
    let o := call.run c
    match o.result with
    | .ok () => (o.after, done, o.notices)
    | .error e => (o.after, systemError, o.notices ++ [.callFailed call.action e])

end DualWrite.Http
