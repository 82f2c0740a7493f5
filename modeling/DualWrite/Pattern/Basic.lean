import DualWrite.Text.Basic

/-!
# Patterns and directions

A pattern says which store is written first and whether the other one is written too. A direction
names the store that is right. A pattern is read from text whatever its case and outer blanks; a
direction is read as it is written.
-/
namespace DualWrite

/-- The store that a comparison or a repair takes as the right one. -/
inductive Direction where
  | src
  | dst
deriving Repr, DecidableEq

namespace Direction

def name : Direction → String
  | .src => "SRC"
  | .dst => "DST"

def ofName? (s : String) : Option Direction :=
  if s = "SRC" then some .src else if s = "DST" then some .dst else none

/-- The name of the store. -/
def storeName : Direction → String
  | .src => "src"
  | .dst => "dst"

def other : Direction → Direction
  | .src => .dst
  | .dst => .src

@[simp] theorem ofName?_name (d : Direction) : ofName? d.name = some d := by cases d <;> rfl

@[simp] theorem other_other (d : Direction) : d.other.other = d := by cases d <;> rfl

theorem ne_other (d : Direction) : d ≠ d.other := by cases d <;> decide

theorem eq_or_eq_other (d e : Direction) : d = e ∨ d = e.other := by
  cases d <;> cases e <;> decide

end Direction

/-- Routing of writes, in the order in which a migration goes through them. -/
inductive Pattern where
  | srcOnly
  | srcFirst
  | dstFirst
  | dstOnly
deriving Repr, DecidableEq

namespace Pattern

def all : List Pattern := [.srcOnly, .srcFirst, .dstFirst, .dstOnly]

def name : Pattern → String
  | .srcOnly => "SRC_ONLY"
  | .srcFirst => "SRC_FIRST"
  | .dstFirst => "DST_FIRST"
  | .dstOnly => "DST_ONLY"

def code : Pattern → UInt8
  | .srcOnly => 0
  | .srcFirst => 1
  | .dstFirst => 2
  | .dstOnly => 3

def ofCode? (n : UInt8) : Option Pattern := all.find? (·.code = n)

/-- Reads a name whatever its case, outer blanks aside. -/
def ofText? (s : String) : Option Pattern := all.find? (·.name = Text.upper (Text.trim s))

/-- The store written first, which is also the one that validation takes as right. -/
def base : Pattern → Direction
  | .srcOnly | .srcFirst => .src
  | .dstFirst | .dstOnly => .dst

/-- The store written second, if any. -/
def second? : Pattern → Option Direction
  | .srcFirst => some .dst
  | .dstFirst => some .src
  | .srcOnly | .dstOnly => none

@[simp] theorem ofCode?_code (p : Pattern) : ofCode? p.code = some p := by cases p <;> rfl

theorem second?_eq {p : Pattern} {d : Direction} (h : p.second? = some d) : d = p.base.other := by
  cases p <;> simp_all [second?, base, Direction.other]

end Pattern

end DualWrite
