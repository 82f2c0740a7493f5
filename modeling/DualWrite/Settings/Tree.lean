/-!
# Trees of settings

What a layer of settings holds before it is known what is wanted of it: values of several kinds
under keys, tables in tables. Layers are merged key by key, and only tables are merged with tables:
any other value of the higher layer takes the place of what is below.
-/
namespace DualWrite.Settings

inductive Tree where
  | text (s : String)
  | integer (n : Int)
  /-- A number with a fraction or an exponent, or none at all. -/
  | real
  | truth (b : Bool)
  | list (items : List Tree)
  | table (entries : List (String × Tree))
deriving Repr

namespace Tree

abbrev Entries := List (String × Tree)

/-- Puts a value under a key, in the place of the one before. -/
def put (k : String) (t : Tree) : Entries → Entries
  | [] => [(k, t)]
  | (k', t') :: r => if k' = k then (k, t) :: r else (k', t') :: put k t r

def entries : Tree → Entries
  | .table es => es
  | _ => []

mutual

/-- The higher tree over the lower one. -/
def merge (low : Tree) : Tree → Tree
  | .table high => .table (mergeEntries low.entries high)
  | t => t

/-- The entries of the higher table, one by one, over those of the lower one. -/
def mergeEntries (low : Entries) : Entries → Entries
  | [] => low
  | (k, t) :: rest =>
    let merged := match low.lookup k with
      | some l => merge l t
      | none => t
    mergeEntries (put k merged low) rest

end

/-- A value at a path of keys, and nothing beside it. -/
def nest (path : List String) (t : Tree) : Tree :=
  path.foldr (fun k t => .table [(k, t)]) t

/-- The part of a record: by its key in a table, by its place in a list. -/
def member? (t : Tree) (place : Nat) (key : String) : Option Tree :=
  match t with
  | .table es => es.lookup key
  | .list items => items[place]?
  | _ => none

def text? : Tree → Option String
  | .text s => some s
  | _ => none

/-- A whole number from `low` up to `high`. -/
def integer? (low high : Int) : Tree → Option Int
  | .integer n => if low ≤ n ∧ n ≤ high then some n else none
  | _ => none

end Tree

end DualWrite.Settings
