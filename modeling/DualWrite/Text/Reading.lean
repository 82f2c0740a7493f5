/-!
# Reading characters

A reader takes characters off the front of a text and returns a value with the rest; one that fails
takes nothing. A repetition ends at the first item that cannot be read or that takes nothing.
-/
namespace DualWrite.Text

abbrev Reading := StateT (List Char) Option

namespace Reading

/-- The value of a text that is read to its end. -/
def whole? {α : Type} (r : Reading α) (cs : List Char) : Option α :=
  match r cs with
  | some (a, []) => some a
  | _ => none

/-- The next character, without taking it. -/
def next? : Reading (Option Char) := fun cs => some (cs.head?, cs)

/-- One character of a class. -/
def one (p : Char → Bool) : Reading Char
  | [] => none
  | c :: r => if p c then some (c, r) else none

def mark (c : Char) : Reading Unit := fun cs => (one (· = c) cs).map fun (_, r) => ((), r)

/-- The characters of a word. -/
def word : List Char → Reading Unit
  | [], cs => some ((), cs)
  | w :: ws, cs =>
    match cs with
    | c :: r => if c = w then word ws r else none
    | [] => none

/-- As many characters of a class as there are. -/
def run (p : Char → Bool) : Reading (List Char) := fun cs => some (cs.takeWhile p, cs.dropWhile p)

/-- At least one character of a class. -/
def run1 (p : Char → Bool) : Reading (List Char) := do
  let c ← one p
  return c :: (← run p)

/-- As many items as there are. -/
def repeated {α : Type} (item : Reading α) (cs : List Char) : List α × List Char :=
  match item cs with
  | none => ([], cs)
  | some (a, r) =>
    if r.length < cs.length then
      let (as, rest) := repeated item r
      (a :: as, rest)
    else ([], cs)
termination_by cs.length

def many {α : Type} (item : Reading α) : Reading (List α) := fun cs => some (repeated item cs)

/-- Items between marks; a mark that no item follows is left. -/
def separated {α : Type} (item : Reading α) (c : Char) : Reading (List α) := do
  let a ← item
  return a :: (← many do mark c; item)

/-- Nothing may be left. -/
def atEnd : Reading Unit
  | [] => some ((), [])
  | _ :: _ => none

end Reading

end DualWrite.Text
