import DualWrite.Settings.Tree
import DualWrite.Toml.Text

/-!
# Settings in environment variables

A variable whose name begins with `MIGRATOR_` sets the value at the path that the rest of its name
spells. Its text is read as a value where it can be, and is a text as it stands where it cannot.
-/
namespace DualWrite.Settings

/-- Variables by name, in the order in which they are looked at. -/
abbrev Environment := List (String × String)

namespace Environment

open Text (Reading digitsValue sign signed)
open Text.Reading

def isGap (c : Char) : Bool := c = ' ' || c = '\t' || c = '\n' || c = '\x0c' || c = '\r'

def gap : Reading Unit := do let _ ← run isGap

/-- Characters that end an unquoted value. -/
def isBound (c : Char) : Bool := c = ',' || c = '{' || c = '}' || c = '[' || c = ']'

/-- A number with a point: digits on one side of it at least, and perhaps an exponent. -/
def pointed : Reading Unit := do
  let _ ← sign
  let whole ← run Char.isDigit
  mark '.'
  let places ← run Char.isDigit
  if whole = [] ∧ places = [] then failure
  (do
    let _ ← one fun c => c = 'e' || c = 'E'
    let _ ← sign
    let _ ← run1 Char.isDigit) <|> pure ()

/-- A whole number of sixty-four bits, with or without a sign. -/
def integral : Reading Int := do
  let negative ← sign
  let n := signed negative (digitsValue 10 (← run1 Char.isDigit))
  if minInt ≤ n ∧ n < Nat.pow 2 64 then return n else failure

/-- What an unquoted value is. -/
def bareTree (s : String) : Tree :=
  if (whole? pointed s.toList).isSome then .real
  else match whole? integral s.toList with
    | some n => .integer n
    | none => .text s

def bare : Reading Tree := do
  let cs ← run fun c => !isBound c
  return bareTree (Text.trim (String.ofList cs))

def truth : Reading Tree :=
  (word "true".toList *> pure (.truth true)) <|> (word "false".toList *> pure (.truth false))

/-- Between quotes, with the escapes of TOML. -/
def quotedText : Reading String := do
  mark '"'
  let cs ← many (one (fun c => c ≠ '"' && c ≠ '\\') <|> Toml.escaped)
  mark '"'
  return String.ofList cs

/-- One character between apostrophes. -/
def character : Reading String := do
  mark '\''
  let c ← one fun _ => true
  mark '\''
  return String.singleton c

def isNameChar (c : Char) : Bool := c.isAlphanum || c = '_' || c = '-'

def entryKey : Reading String := do
  match ← next? with
  | some '"' => quotedText
  | _ => return String.ofList (← run1 isNameChar)

/-- Items up to a closing mark, behind each but perhaps the last a comma. -/
def items {α : Type} (item : Reading α) (close : Char) : Reading (List α) := do
  let as ← many do
    if (← next?) = some close then failure
    let a ← item
    if (← next?) = some close then pure () else mark ','
    return a
  mark close
  return as

/-- A key and its value. -/
def entry (value : Reading Tree) : Reading (String × Tree) := do
  gap
  let k ← entryKey
  gap
  mark '='
  return (k, ← value)

/-- A value between gaps; what it begins with decides its kind. The first argument bounds how deep
lists and tables are nested. -/
def value : Nat → Reading Tree
  | 0 => failure
  | depth + 1 => do
    gap
    let t ← match ← next? with
      | some '{' =>
        mark '{'
        let es ← items (entry (value depth)) '}'
        pure (.table (es.foldl (fun t (k, v) => Tree.put k v t) []))
      | some '[' =>
        mark '['
        pure (.list (← items (value depth) ']'))
      | some '"' => pure (.text (← quotedText))
      | some '\'' => pure (.text (← character))
      | _ => truth <|> bare
    gap
    return t

/-- The value of a variable's text. Every list and table takes up a character, so the length of the
text bounds their depth. -/
def treeOf (s : String) : Tree := (whole? (value (s.length + 1)) s.toList).getD (.text s)

def namePrefix : List Char := "migrator_".toList

/-- The parts of a name: double underscores and points stand between them. -/
def parts : List Char → List (List Char)
  | [] => [[]]
  | '_' :: '_' :: r => [] :: parts r
  | c :: r =>
    if c = '.' then [] :: parts r
    else match parts r with
      | p :: ps => (c :: p) :: ps
      | [] => [[c]]

/-- The path that a variable's name spells, whatever the case of its letters. -/
def path? (name : String) : Option (List String) :=
  let cs := (Text.lower (Text.trim name)).toList
  if cs.take namePrefix.length = namePrefix then
    let ps := parts (Text.trim (String.ofList (cs.drop namePrefix.length))).toList
    if [] ∈ ps then none else some (ps.map String.ofList)
  else none

/-- Adds what one variable sets. -/
def add (t : Tree) (name text : String) : Tree :=
  match path? name with
  | some path => t.merge (Tree.nest path (treeOf text))
  | none => t

/-- What the variables set, later ones over earlier ones. -/
def layer (e : Environment) : Tree := e.foldl (fun t v => add t v.1 v.2) (.table [])

end Environment

end DualWrite.Settings
