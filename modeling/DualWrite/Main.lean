import DualWrite.CommandLine.Documents
import DualWrite.CommandLine.Run

/-!
# The program

Reads the arguments, the environment and the settings document, and does what they come to. A server
keeps its stores in memory; its requests come line by line on standard input, each a method, a path
and perhaps a body in JSON, and the end of the input stops it.
-/
namespace DualWrite.Main

/-- The variables of this process. -/
def environment : IO Settings.Environment := do
  let octets ← try IO.FS.readBinFile "/proc/self/environ" catch _ => pure .empty
  let lines := (String.ofList (Text.Utf8.lenient octets.toList)).splitOn "\x00"
  return lines.filterMap fun l =>
    match l.toList.dropWhile (· ≠ '=') with
    | _ :: value => some (String.ofList (l.toList.takeWhile (· ≠ '=')), String.ofList value)
    | [] => none

/-- The text of the first document there is. Octets that are no text read as one that is no
document. -/
def firstDocument : List (List String) → IO (Option String)
  | [] => return none
  | place :: places => do
    try
      let octets ← IO.FS.readBinFile (CommandLine.pathText place)
      return some ((Text.Utf8.toString? octets.toList).getD "\x00")
    catch _ => firstDocument places

def requestOf (line : String) : Http.Request :=
  let word (cs : List Char) := cs.takeWhile (· ≠ ' ')
  let rest (cs : List Char) := (cs.dropWhile (· ≠ ' ')).drop 1
  let cs := line.toList
  let body := rest (rest cs)
  ⟨String.ofList (word cs), String.ofList (word (rest cs)),
    if body = [] then none else some "application/json", Text.Utf8.encode body⟩

/-- Prints what was reported since the last time. -/
def printNotices (s : Server) : IO Server := do
  for n in s.world.notices do IO.eprintln n.line
  return { s with world := { s.world with notices := [], events := [] } }

/-- Answers requests until there are no more; `before` is the time of the last one. -/
partial def serve (s : Server) (before : Nat) : IO Unit := do
  let line ← (← IO.getStdin).getLine
  let now ← IO.monoMsNow
  let s ← printNotices (s.sleep (now - before))
  if line.isEmpty then
    let _ ← printNotices s.stop
  else
    let (s, response) := s.receive (requestOf line.trimAsciiEnd.toString)
    let s ← printNotices s
    IO.println (toString response.status ++ " " ++ String.ofList (Text.Utf8.lenient response.body))
    (← IO.getStdout).flush
    serve s now

def conclude : CommandLine.Conclusion → IO UInt32
  | .finished code output messages => do
    for m in messages do IO.eprintln m
    IO.print output
    return code
  | .serving settings messages => do
    for m in messages do IO.eprintln m
    let store (name : String) := Store.fresh name (min settings.poolSize.toNat 1024)
    match Server.start settings (store "src") (store "dst") with
    | .error e =>
      IO.eprintln e.message
      return 1
    | .ok s =>
      serve s (← IO.monoMsNow)
      return 0

def run (args : List String) : IO UInt32 := do
  match CommandLine.parse args with
  | .error r => conclude (CommandLine.refused r)
  | .ok i =>
    let e ← environment
    let workingDirectory := CommandLine.names (← IO.currentDir).toString
    let places := match i.document.or (CommandLine.usualDocument? e) with
      | some path => CommandLine.places workingDirectory path
      | none => []
    conclude (CommandLine.run i (← firstDocument places) e)

end DualWrite.Main

def main (args : List String) : IO UInt32 := DualWrite.Main.run args
