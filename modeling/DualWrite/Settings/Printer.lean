import DualWrite.Settings.Basic
import DualWrite.Toml.Printer

/-!
# Writing settings

The settings by section and key, and as a document that can be loaded again: one table for each
section, with a blank line between two of them.
-/
namespace DualWrite.Settings

/-- A value that a setting has. -/
inductive Scalar where
  | text (s : String)
  | integer (n : Int)
deriving Repr, DecidableEq

/-- The settings by section and key, in the order in which they are written. -/
def sections (s : Settings) : List (String × List (String × Scalar)) := [
  ("logging", [("migrator", .text s.level)]),
  ("server", [("host", .text s.host), ("port", .integer s.port.toNat)]),
  ("database", [("src", .text s.src), ("dst", .text s.dst),
    ("pool_size", .integer s.poolSize.toNat), ("busy_timeout_ms", .integer s.busyTimeout.toNat)]),
  ("migrator", [("pattern", .text s.pattern), ("batch_size", .integer s.batchSize.toInt),
    ("topic", .text s.topic), ("group_id", .text s.group),
    ("max_redeliveries", .integer s.maxRedeliveries.toNat)])]

def Scalar.written : Scalar → List Char
  | .text s => Toml.quoted s
  | .integer n => (toString n).toList

def writtenPair (p : String × Scalar) : List Char :=
  p.1.toList ++ " = ".toList ++ p.2.written ++ ['\n']

def writtenSection (p : String × List (String × Scalar)) : List Char :=
  '[' :: p.1.toList ++ [']', '\n'] ++ p.2.flatMap writtenPair

def toToml (s : Settings) : String :=
  String.ofList (List.intercalate ['\n'] (s.sections.map writtenSection))

end DualWrite.Settings
