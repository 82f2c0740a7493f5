import DualWrite.CommandLine.Basic
import DualWrite.Settings.Environment

/-!
# Where settings documents are

A document that is named by an absolute path is at that path. One that is named by a relative path
is in the working directory or, failing that, in the nearest directory above it. Without a name the
document is in the user's directory of settings.
-/
namespace DualWrite.CommandLine

/-- The names on a path, without those that stay where they are. -/
def names (path : String) : List String :=
  (path.splitOn "/").filter fun n => n ≠ "" && n ≠ "."

def isAbsolute (path : String) : Bool := path.startsWith "/"

/-- A directory, given by its names, and those above it. -/
def upward (names : List String) : List (List String) :=
  (List.range (names.length + 1)).map fun k => names.take (names.length - k)

/-- The places of a document, the first one that has it to be taken. -/
def places (workingDirectory : List String) (path : String) : List (List String) :=
  if isAbsolute path then [names path]
  else (upward workingDirectory).map fun d => d ++ names path

def pathText (names : List String) : String := "/" ++ String.intercalate "/" names

/-- The document that is taken when none is named. -/
def usualDocument? (e : Settings.Environment) : Option String :=
  let set (name : String) : Option String := (e.lookup name).filter (· ≠ "")
  let directory := ((set "XDG_CONFIG_HOME").filter isAbsolute).or
    ((set "HOME").map (· ++ "/.config"))
  directory.map (· ++ "/migrator/config.toml")

end DualWrite.CommandLine
