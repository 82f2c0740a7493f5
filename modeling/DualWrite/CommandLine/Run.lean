import DualWrite.CommandLine.Basic
import DualWrite.Server
import DualWrite.Settings.Load

/-!
# Runs of the program

What a call comes to: an end with a code, or a server that is to be started. Help is not written out
here. What is said of the settings goes before everything else.
-/
namespace DualWrite.CommandLine

def version : String := "0.1.0"

/-- What a call of the program comes to. -/
inductive Conclusion where
  | finished (code : UInt32) (output : String) (messages : List String)
  | serving (settings : Settings) (messages : List String)

/-- A question is answered; other refusals are a fault of the caller. -/
def refused : Refusal → Conclusion
  | .displayHelp => .finished 0 "" []
  | .displayVersion => .finished 0 ("migrator " ++ version ++ "\n") []
  | _ => .finished 2 "" []

def failed (e : Error) (messages : List String) : Conclusion :=
  .finished 1 "" (messages ++ [e.message])

/-- Runs a call, given the text of its document and the environment. Without a command it serves. -/
def run (i : Invocation) (document : Option String) (e : Settings.Environment) : Conclusion :=
  let (settings, complaints) := Settings.load document e
  let messages := complaints.map Settings.Complaint.text
  match i.command.getD .serve with
  | .config => .finished 0 settings.toToml messages
  | .serve =>
    match settings.address with
    | .error e => failed e messages
    | .ok _ => .serving settings messages

end DualWrite.CommandLine
