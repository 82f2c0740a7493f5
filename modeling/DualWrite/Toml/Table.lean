import DualWrite.Settings.Tree

/-!
# Tables of a TOML document

A document is a list of lines: headers, which say where the pairs below them belong, and pairs. A
table is made by its header, on the way to a deeper header, or by a dotted key; which of them
decides what may still be added to it. No key is given twice.
-/
namespace DualWrite.Toml

open Settings (Tree)

/-- What made a table. -/
inductive Origin where
  | header
  /-- The header of a table below it. -/
  | implied
  | dotted
deriving Repr, DecidableEq

inductive Node where
  | value (t : Tree)
  | table (origin : Origin) (entries : List (String × Node))
  /-- Tables under one key, each with a header of its own. -/
  | tables (items : List Node)

namespace Node

abbrev Entries := List (String × Node)

mutual

def toTree : Node → Tree
  | .value t => t
  | .table _ es => .table (treesOfEntries es)
  | .tables items => .list (treesOfItems items)

def treesOfEntries : Entries → List (String × Tree)
  | [] => []
  | (k, n) :: r => (k, toTree n) :: treesOfEntries r

def treesOfItems : List Node → List Tree
  | [] => []
  | n :: r => toTree n :: treesOfItems r

end

/-- Changes what a key holds, or adds the key. -/
def alter (k : String) (f : Option Node → Option Node) : Entries → Option Entries
  | [] => (f none).map fun n => [(k, n)]
  | (k', n) :: r =>
    if k' = k then (f (some n)).map fun n' => (k, n') :: r
    else (alter k f r).map fun r' => (k', n) :: r'

/-- Changes the table that a node stands for: itself, or the last of several. -/
def alterTable (f : Origin → Entries → Option Entries) : Node → Option Node
  | .table o es => (f o es).map (.table o)
  | .tables items =>
    match items.reverse with
    | .table o es :: r => (f o es).map fun es' => .tables (.table o es' :: r).reverse
    | _ => none
  | .value _ => none

/-- Changes the table at a path. Tables that are missing are made, and each one on the way must be
of an origin that may be entered. -/
def within (made : Origin) (entered : Origin → Bool) (f : Origin → Entries → Option Entries) :
    List String → Origin → Entries → Option Entries
  | [], o, es => f o es
  | k :: path, _, es =>
    es |> alter k fun n =>
      (n.getD (.table made [])).alterTable fun o es' =>
        match n with
        | some (.table _ _) => if entered o then within made entered f path o es' else none
        | _ => within made entered f path o es'

/-- Adds a value under a new key. -/
def addValue (k : String) (t : Tree) : Entries → Option Entries :=
  alter k fun
    | none => some (.value t)
    | some _ => none

/-- Adds a pair below a table. The last table of a dotted key was made by dotted keys. -/
def addPair (path : List String) (k : String) (t : Tree) (es : Entries) : Option Entries :=
  within .dotted (· ≠ .header)
    (fun o es => if o = .dotted ↔ path ≠ [] then addValue k t es else none) path .header es

end Node

/-- What a line of a document says. -/
inductive Line where
  | header (path : List String) (k : String)
  | listHeader (path : List String) (k : String)
  | pair (path : List String) (k : String) (t : Tree)

/-- A document up to some line: its tables, and the path of the table that pairs go to. -/
structure Draft where
  root : Node.Entries
  here : List String

namespace Draft

open Node

def empty : Draft := ⟨[], []⟩

/-- Changes the table at a path of headers. -/
def atPath (f : Entries → Option Entries) (path : List String) (d : Draft) : Option Entries :=
  within .implied (fun _ => true) (fun _ es => f es) path .header d.root

/-- A header makes its table, unless it was only implied before. -/
def openTable : Option Node → Option Node
  | none => some (.table .header [])
  | some (.table .implied es) => some (.table .header es)
  | some _ => none

/-- A header of several tables adds one of them. -/
def openItem : Option Node → Option Node
  | none => some (.tables [.table .header []])
  | some (.tables items) => some (.tables (items ++ [.table .header []]))
  | some _ => none

def add (d : Draft) : Line → Option Draft
  | .header path k => (d.atPath (alter k openTable) path).map (⟨·, path ++ [k]⟩)
  | .listHeader path k => (d.atPath (alter k openItem) path).map (⟨·, path ++ [k]⟩)
  | .pair path k t => (d.atPath (addPair path k t) d.here).map (⟨·, d.here⟩)

end Draft

end DualWrite.Toml
