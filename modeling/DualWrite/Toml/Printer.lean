import DualWrite.Toml.Text

/-!
# Writing TOML

A text is written between quotes or apostrophes, single or triple: in the first form that needs no
escape, and between quotes with escapes if there is none. A text with line ends that stands between
triple marks begins on a line of its own.
-/
namespace DualWrite.Toml

/-- Controls other than the tab and the line end. -/
def isControl (c : Char) : Bool := !isShown c && c ≠ '\n'

/-- The longest run of a character; `n` of them stand before the text. -/
def longestRun (q : Char) : Nat → List Char → Nat
  | n, [] => n
  | n, c :: r => if c = q then longestRun q (n + 1) r else max n (longestRun q 0 r)

inductive Form where
  | basic
  | literal
  | longBasic
  | longLiteral
deriving Repr, DecidableEq

namespace Form

/-- How a text is written. -/
def of (cs : List Char) : Form :=
  let lined := cs.contains '\n'
  let plain := !cs.any isControl
  let unslashed := plain && !cs.contains '\\'
  if unslashed && !lined && longestRun '"' 0 cs = 0 then .basic
  else if plain && !lined && longestRun '\'' 0 cs = 0 then .literal
  else if unslashed && longestRun '"' 0 cs ≤ 2 then .longBasic
  else if plain && longestRun '\'' 0 cs ≤ 2 then .longLiteral
  else if lined then .longBasic
  else .basic

def isLong : Form → Bool
  | .basic | .literal => false
  | .longBasic | .longLiteral => true

/-- What stands on both sides of the text. -/
def mark : Form → List Char
  | .basic => ['"']
  | .literal => ['\'']
  | .longBasic => ['"', '"', '"']
  | .longLiteral => ['\'', '\'', '\'']

end Form

def upperHex (n : Nat) : Char := ((Nat.toDigits 16 n).headD '0').toUpper

/-- What stands behind the backslash for a character that needs one. -/
def escapeOf? (c : Char) : Option (List Char) :=
  if c = '\x08' then some ['b']
  else if c = '\t' then some ['t']
  else if c = '\n' then some ['n']
  else if c = '\x0c' then some ['f']
  else if c = '\r' then some ['r']
  else if c = '\\' then some ['\\']
  else if isShown c then none
  else some ['u', '0', '0', upperHex (c.toNat / 16), upperHex (c.toNat % 16)]

/-- The text between quotes; `n` unescaped quotes stand before it. Between triple quotes line ends
stand as they are, and so do two quotes in a row. -/
def escapes (long : Bool) : Nat → List Char → List Char
  | _, [] => []
  | n, c :: r =>
    if c = '"' then
      if long && n < 2 then c :: escapes long (n + 1) r else '\\' :: c :: escapes long 0 r
    else if long && c = '\n' then c :: escapes long 0 r
    else match escapeOf? c with
      | some e => '\\' :: e ++ escapes long 0 r
      | none => c :: escapes long 0 r

/-- A text as a document holds it. -/
def quoted (s : String) : List Char :=
  let cs := s.toList
  let form := Form.of cs
  let body := match form with
    | .basic | .longBasic => escapes form.isLong 0 cs
    | .literal | .longLiteral => cs
  form.mark ++ (if form.isLong && cs.contains '\n' then ['\n'] else []) ++ body ++ form.mark

end DualWrite.Toml
