import DualWrite.Text.Basic

/-!
# Text in TOML documents

A text stands between quotes or apostrophes, single ones on one line or triple ones over several
lines. Only between quotes does a backslash mean something else than itself. The other blanks,
line ends and comments of a document are here too.
-/
namespace DualWrite.Toml

open Text (Reading isHexDigit digitsValue)
open Text.Reading

def isSpace (c : Char) : Bool := c = ' ' || c = '\t'

/-- Characters that may stand anywhere: all but the controls, of which only the tab may. -/
def isShown (c : Char) : Bool := c = '\t' || (0x20 ≤ c.toNat && c.toNat ≠ 0x7F)

def spaces : Reading Unit := do let _ ← run isSpace

/-- The end of a line, with or without a carriage return. -/
def newline : Reading Unit := word ['\n'] <|> word ['\r', '\n']

/-- A comment up to the end of its line. -/
def comment : Reading Unit := do
  mark '#'
  let _ ← run isShown

/-- Exactly so many digits. -/
def hexDigits : Nat → Reading (List Char)
  | 0 => pure []
  | n + 1 => do
    let d ← one isHexDigit
    return d :: (← hexDigits n)

/-- The character of a code point. -/
def charOf? (n : Nat) : Option Char := if n.isValidChar then some (Char.ofNat n) else none

def codePoint (digits : Nat) : Reading Char := do
  match charOf? (digitsValue 16 (← hexDigits digits)) with
  | some c => return c
  | none => failure

/-- What a backslash makes of the characters behind it. -/
def escaped : Reading Char := do
  mark '\\'
  match ← one fun _ => true with
  | 'b' => return '\x08'
  | 'f' => return '\x0c'
  | 'n' => return '\n'
  | 'r' => return '\r'
  | 't' => return '\t'
  | '"' => return '"'
  | '\\' => return '\\'
  | 'u' => codePoint 4
  | 'U' => codePoint 8
  | _ => failure

/-- Between quotes on one line. -/
def basicText : Reading (List Char) := do
  mark '"'
  let cs ← many (one (fun c => isShown c && c ≠ '"' && c ≠ '\\') <|> escaped)
  mark '"'
  return cs

/-- Between apostrophes on one line. -/
def literalText : Reading (List Char) := do
  mark '\''
  let cs ← run fun c => isShown c && c ≠ '\''
  mark '\''
  return cs

/-- A backslash at the end of a line takes away the line end and the blanks behind it. -/
def joint : Reading (List Char) := do
  mark '\\'
  spaces
  newline
  let _ ← many (one isSpace *> pure () <|> newline)
  return []

/-- Quotes inside a text over several lines: one or two, or those before the last three of four
or five. -/
def innerQuotes (q : Char) : Reading (List Char) := fun cs =>
  let n := (cs.takeWhile (· = q)).length
  let k := if n ≤ 2 then n else if n ≤ 5 then n - 3 else 0
  if k = 0 then none else some (List.replicate k q, cs.drop k)

def lineEnd : Reading (List Char) := do
  newline
  return ['\n']

/-- A text over several lines; a line end right behind the opening is no part of it. -/
def longText (q : Char) (piece : Reading (List Char)) : Reading (List Char) := do
  word [q, q, q]
  newline <|> pure ()
  let pieces ← many (piece <|> lineEnd <|> innerQuotes q)
  word [q, q, q]
  return pieces.flatten

def longBasicText : Reading (List Char) :=
  longText '"'
    (run1 (fun c => isShown c && c ≠ '"' && c ≠ '\\') <|> joint <|> do return [← escaped])

def longLiteralText : Reading (List Char) :=
  longText '\'' (run1 fun c => isShown c && c ≠ '\'')

/-- Whether a text over several lines begins here. -/
def opensLong (q : Char) : Reading Bool := fun cs => some (cs.take 3 = [q, q, q], cs)

def text : Reading String := do
  let cs ←
    if ← opensLong '"' then longBasicText
    else if ← opensLong '\'' then longLiteralText
    else basicText <|> literalText
  return String.ofList cs

end DualWrite.Toml
