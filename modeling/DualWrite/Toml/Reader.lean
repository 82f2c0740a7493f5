import DualWrite.Toml.Number
import DualWrite.Toml.Table

/-!
# Reading TOML documents

A document is read line by line; what a line says is then added to the tables read so far. Only
arrays go over several lines. Arrays and inline tables are nested less than eighty deep, and a
dotted key has less than eighty parts.
-/
namespace DualWrite.Toml

open Settings (Tree)
open Text (Reading)
open Text.Reading

def depthLimit : Nat := 80

def isKeyChar (c : Char) : Bool := c.isAlphanum || c = '-' || c = '_'

def simpleKey : Reading String := do
  let cs ← basicText <|> literalText <|> run1 isKeyChar
  return String.ofList cs

/-- A key with points between its parts: the parts before the last, and the last. -/
def key : Reading (List String × String) := do
  let ks ← separated (do spaces; let k ← simpleKey; spaces; return k) '.'
  match ks.reverse with
  | k :: path => if ks.length < depthLimit then return (path.reverse, k) else failure
  | [] => failure

/-- Blanks, line ends and comments between the parts of an array. -/
def gaps : Reading Unit := do
  spaces
  let _ ← many do
    (comment *> newline) <|> newline
    spaces

/-- Dates and times are tables of one entry, under a key that no setting has. -/
def timeTree : Tree := .table [("$time", .text "")]

/-- A value on one line. -/
def scalar : Reading Tree :=
  (do return .text (← text))
    <|> (dateTime *> pure timeTree)
    <|> (real *> pure .real)
    <|> (specialReal *> pure .real)
    <|> (do return .integer (← integer))
    <|> (word "true".toList *> pure (.truth true))
    <|> (word "false".toList *> pure (.truth false))

/-- An array of values. -/
def array (value : Reading Tree) : Reading Tree := do
  mark '['
  let items ← separated (do gaps; let t ← value; gaps; return t) ',' <|> pure []
  if items.isEmpty then pure () else mark ',' <|> pure ()
  gaps
  mark ']'
  return .list items

/-- Adds pairs one by one to a table. -/
def addPairs : List ((List String × String) × Tree) → Node.Entries → Option Node.Entries
  | [], es => some es
  | ((path, k), t) :: r, es => (Node.addPair path k t es).bind (addPairs r)

/-- A table on one line. -/
def inlineTable (value : Reading Tree) : Reading Tree := do
  mark '{'
  let pair : Reading ((List String × String) × Tree) := do
    let k ← key
    mark '='
    spaces
    let t ← value
    spaces
    return (k, t)
  let pairs ← separated pair ',' <|> pure []
  spaces
  mark '}'
  match addPairs pairs [] with
  | some es => return .table (Node.treesOfEntries es)
  | none => failure

/-- A value; the argument bounds the depth of its arrays and tables. -/
def value : Nat → Reading Tree
  | 0 => scalar
  | depth + 1 => scalar <|> array (value depth) <|> inlineTable (value depth)

/-- The end of a line, at which a comment may stand. -/
def lineTrail : Reading Unit := do
  spaces
  comment <|> pure ()
  newline <|> atEnd

def headerLine : Reading Line := do
  mark '['
  let (path, k) ← key
  mark ']'
  lineTrail
  return .header path k

def listHeaderLine : Reading Line := do
  word ['[', '[']
  let (path, k) ← key
  word [']', ']']
  lineTrail
  return .listHeader path k

def pairLine : Reading Line := do
  let (path, k) ← key
  mark '='
  spaces
  let t ← value (depthLimit - 1)
  lineTrail
  return .pair path k t

/-- One line of a document; `none` says nothing. -/
def line : Reading (Option Line) :=
  ((some <$> (listHeaderLine <|> headerLine <|> pairLine))
    <|> (comment *> (newline <|> atEnd) *> pure none)
    <|> (newline *> pure none)) <* spaces

def lines : Reading (List (Option Line)) := do
  mark '\uFEFF' <|> pure ()
  spaces
  let ls ← many line
  atEnd
  return ls

/-- The table that a document describes; `none` if it is none. -/
def table? (document : String) : Option Tree := do
  let ls ← whole? lines document.toList
  let d ← (ls.filterMap id).foldlM Draft.add Draft.empty
  return .table (Node.treesOfEntries d.root)

end DualWrite.Toml
