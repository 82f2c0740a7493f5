import DualWrite.Binary64.Basic
import DualWrite.Toml.Text

/-!
# Numbers and times in TOML documents

A whole number has sixty-four bits and may be written in one of four bases; underscores may stand
between digits. Dates and times are recognised, with or without an offset, and days are checked
against the calendar.
-/
namespace DualWrite.Toml

open Text (Reading isHexDigit digitsValue sign signed)
open Text.Reading

/-- At least one digit, each further one perhaps behind an underscore. -/
def digitsOf (p : Char → Bool) : Reading (List Char) := do
  let d ← one p
  return d :: (← many (one p <|> do mark '_'; one p))

/-- Decimal digits without a leading zero. -/
def plainDigits : Reading (List Char) := do
  match ← next? with
  | some '0' =>
    mark '0'
    return ['0']
  | _ => digitsOf Char.isDigit

/-- A whole number of sixty-four bits. -/
def word64 (n : Int) : Reading Int :=
  if fits n then return n else failure

/-- A number in another base, behind its mark. -/
def based (c : Char) (base : Nat) (p : Char → Bool) : Reading Int := do
  word ['0', c]
  word64 (digitsValue base (← digitsOf p))

def decimal : Reading Int := do
  let negative ← sign
  word64 (signed negative (digitsValue 10 (← plainDigits)))

def integer : Reading Int :=
  based 'x' 16 isHexDigit <|> based 'o' 8 (fun c => '0' ≤ c && c ≤ '7')
    <|> based 'b' 2 (fun c => c = '0' || c = '1') <|> decimal

def exponent : Reading Int := do
  let _ ← one fun c => c = 'e' || c = 'E'
  let negative ← sign
  return signed negative (digitsValue 10 (← digitsOf Char.isDigit))

def fraction : Reading (List Char) := do
  mark '.'
  digitsOf Char.isDigit

/-- A number with a fraction, an exponent or both. Too large a positive one is refused. -/
def real : Reading Unit := do
  let negative ← sign
  let whole ← plainDigits
  let (places, e) ← (do return ([], ← exponent))
    <|> do
      let places ← fraction
      return (places, ← (exponent <|> return 0))
  match Binary64.ofDecimal negative (digitsValue 10 (whole ++ places)) (e - places.length) with
  | .infinite false => failure
  | _ => return

/-- The words for what is no number, or beyond all numbers. -/
def specialReal : Reading Unit := do
  let _ ← sign
  word ['i', 'n', 'f'] <|> word ['n', 'a', 'n']

/-- Exactly so many decimal digits, with a value in a range. -/
def digitsIn (count low high : Nat) : Reading Nat := fun cs =>
  let ds := cs.take count
  let n := digitsValue 10 ds
  if ds.length = count ∧ ds.all Char.isDigit ∧ low ≤ n ∧ n ≤ high then some (n, cs.drop count)
  else none

def isLeapYear (year : Nat) : Bool := year % 4 = 0 && (year % 100 ≠ 0 || year % 400 = 0)

def daysIn (year month : Nat) : Nat :=
  if month = 2 then if isLeapYear year then 29 else 28
  else if month ∈ [4, 6, 9, 11] then 30
  else 31

def date : Reading Unit := do
  let year ← digitsIn 4 0 9999
  mark '-'
  let month ← digitsIn 2 1 12
  mark '-'
  let _ ← digitsIn 2 1 (daysIn year month)

def time : Reading Unit := do
  let _ ← digitsIn 2 0 23
  mark ':'
  let _ ← digitsIn 2 0 59
  mark ':'
  let _ ← digitsIn 2 0 60
  (do mark '.'; let _ ← run1 Char.isDigit) <|> pure ()

def offset : Reading Unit := do
  match ← one fun c => c = 'Z' || c = 'z' || c = '+' || c = '-' with
  | 'Z' | 'z' => return
  | _ =>
    let _ ← digitsIn 2 0 23
    mark ':'
    let _ ← digitsIn 2 0 59

/-- The time behind a date, perhaps with its offset. -/
def timeOfDay : Reading Unit := do
  let _ ← one fun c => c = 'T' || c = 't' || c = ' '
  time
  offset <|> pure ()

/-- A date, a time, or both. -/
def dateTime : Reading Unit :=
  (do date; timeOfDay <|> pure ()) <|> time

end DualWrite.Toml
