import DualWrite.Store.Fault
import DualWrite.Store.Schema

/-!
# Statements on contents

`prepare` resolves the names of a statement, `modify` runs one that writes, and `rows` one that
reads. Nothing here knows of transactions: contents go in and contents come out.
-/
namespace DualWrite.Store

/-- Rows as a reader gets them. -/
structure Rows where
  columns : List String
  rows : List (List Value)
deriving Repr, DecidableEq

def Rows.none : Rows := ⟨[], []⟩

/-- Why a modification failed, and whether it takes its transaction along. -/
structure Refusal where
  fault : Fault
  endsTransaction : Bool
deriving Repr, DecidableEq

/-- The first mention of a column that the table lacks, and the octets before it. A quoted name that
is no column stands for its own text. -/
def unresolved (s : Schema) : Nat → List Piece → Option (Name × Nat)
  | _, [] => none
  | n, .column c :: ps =>
    if (s.place? c.text).isNone && !c.isQuoted then some (c, n)
    else unresolved s (n + c.sql.utf8ByteSize) ps
  | n, .words w :: ps => unresolved s (n + w.utf8ByteSize) ps

/-- A column mentioned at a known place of a text. -/
def resolveAll (s : Schema) (text : String) (start : Nat) (ps : List Piece) : Except Fault Unit :=
  match unresolved s start ps with
  | some (c, n) => .error (.noColumn c.text (some ⟨text, n⟩))
  | none => .ok ()

/-- The assignments of an update, each right side before its column. -/
def resolveSets (s : Schema) (text : String) : Nat → List (Name × Assigned) → Except Fault Unit
  | _, [] => .ok ()
  | n, (c, a) :: rest => do
    let n := n + c.sql.utf8ByteSize + 3
    resolveAll s text n a.pieces
    if (s.place? c.text).isNone then .error (.noColumn c.text none)
    resolveSets s text (n + (textOf a.pieces).utf8ByteSize + 2) rest

namespace Contents

def tableOf (c : Contents) (n : Name) : Except Fault Table :=
  match c.table? n.text with
  | some t => .ok t
  | none => .error (.noTable n.text)

/-- Whether the names of a statement are there. -/
def prepare (c : Contents) (st : Statement) : Except Fault Unit :=
  match st with
  | .insert _ table columns => do
    let t ← c.tableOf table
    match columns.find? fun n => (t.schema.place? n.text).isNone with
    | some n => .error (.noColumnNamed t.schema.table n.text)
    | none => .ok ()
  | .update table sets whose => do
    let t ← c.tableOf table
    resolveSets t.schema st.text ("UPDATE ".utf8ByteSize + table.sql.utf8ByteSize + 5) sets
    let tail := Statement.whosePieces whose
    resolveAll t.schema st.text (st.text.utf8ByteSize - (textOf tail).utf8ByteSize) tail
  | .delete table _ => do
    let t ← c.tableOf table
    resolveAll t.schema st.text 0 st.pieces
  | .select q => do
    let t ← c.tableOf q.table
    resolveAll t.schema st.text 0 st.pieces
  | .malformed word _ => .error (.malformed word ⟨st.text, 0⟩)
  | .blank => .error .misuse
  | .several first _ => do
    prepare c first
    .error .several
  | .commit | .rollback => .ok ()

end Contents

namespace Schema

/-- The value that a column name has in a row. -/
def read (s : Schema) (r : Row) (n : Name) : Value :=
  match s.place? n.text with
  | some i => r.value i
  | none => .text n.text

/-- An argument as a comparison with a column sees it. -/
def facing (s : Schema) (n : Name) (v : Value) : Value :=
  match (s.place? n.text).bind (s.columns[·]?) with
  | some c => v.facing c.affinity
  | none => v

/-- Whether a column equals an argument; a key equals only what the key column would keep as a whole
number. -/
def equals (s : Schema) (r : Row) (n : Name) (v : Value) : Bool :=
  if s.key?.isSome && s.place? n.text = s.key? then s.read r n = v.store .integer
  else (s.read r n).equals (s.facing n v)

def above (s : Schema) (r : Row) (n : Name) (v : Value) : Bool :=
  (s.read r n).above (s.facing n v)

def holds (s : Schema) (r : Row) : Condition → List Value → Bool
  | .equals c, v :: _ => s.equals r c v
  | .above c, v :: _ => s.above r c v
  | .pairAbove c d, v :: w :: _ => s.above r c v || (s.equals r c v && s.above r d w)
  | .among c n, vs => (vs.take n).any (s.equals r c)
  | _, _ => false

/-- Order of rows by the values of some columns. -/
def compareRows (s : Schema) (order : List Name) (a b : Row) : Ordering :=
  Value.compareLists Value.compare (order.map (s.read a)) (order.map (s.read b))

end Schema

/-- A limit as a number; a negative one is no limit. -/
def limitOf : Limit → List Value → Except Fault (Option Nat)
  | .none, _ => .ok none
  | .zero, _ => .ok (some 0)
  | .parameter, args =>
    match (args.getLast?.getD .null).store .integer with
    | .int n => .ok (if n < 0 then none else some n.toNat)
    | _ => .error .mismatch

namespace Table

def select (t : Table) (q : Selection) (args : List Value) : Except Fault Rows := do
  let limit ← limitOf q.limit args
  let s := t.schema
  let kept := match q.condition with
    | some c => t.rows.filter fun r => s.holds r c args
    | none => t.rows
  let sorted := if q.order.isEmpty then kept
    else kept.mergeSort fun a b => s.compareRows q.order a b != .gt
  let rows := match limit with
    | some n => sorted.take n
    | none => sorted
  match q.selected with
  | .all => .ok ⟨s.names, rows.map (·.values)⟩
  | .count => .ok ⟨["count(*)"], [[.int kept.length]]⟩
  | .columns ns =>
    let title := fun n => ((s.place? n.text).map s.nameAt).getD n.sql
    .ok ⟨ns.map title, rows.map fun r => ns.map (s.read r)⟩

/-- The first column that holds nothing and may not. -/
def nullFault? (s : Schema) (r : Row) : Option Fault :=
  ((List.range s.columns.length).find? fun i =>
    (s.columns[i]?.any (·.notNull)) && r.value i = .null).map fun i => .notNull s.table (s.nameAt i)

def checkFault? (s : Schema) (r : Row) : Option Fault :=
  (s.nonNegative.find? fun i => (Value.int 0).above (r.value i)).map fun i => .check (s.nameAt i)

/-- Two rows that may not stand together, by some unique columns. -/
def collide (columns : List Nat) (a b : Row) : Bool :=
  columns.all fun i => (a.value i).equals (b.value i)

/-- Two rows that may not stand together, by their key. -/
def sameKey (s : Schema) (a b : Row) : Bool := s.key?.isSome && a.number = b.number

def uniqueFault? (s : Schema) (others : List Row) (r : Row) : Option Fault :=
  match s.key? with
  | some k =>
    if others.any (sameKey s r) then some (.unique s.table [s.nameAt k]) else further
  | none => further
where
  further : Option Fault :=
    (s.uniques.find? fun u => others.any (collide u r)).map fun u =>
      .unique s.table (u.map s.nameAt)

/-- The rows that a new row drives out. -/
def collidesWith (s : Schema) (r x : Row) : Bool :=
  sameKey s r x || s.uniques.any fun u => collide u r x

/-- A row of these values, its row number taken from the key column or given. -/
def rowOf (s : Schema) (values : List Value) (fresh : Option Int) (current : Int) :
    Except Fault Row :=
  match s.key? with
  | none => .ok ⟨current, values⟩
  | some k =>
    match values.getD k .null, fresh with
    | .int n, _ => .ok ⟨n, values⟩
    | .null, some n => .ok ⟨n, values.set k (.int n)⟩
    | _, _ => .error .mismatch

/-- The values of an insert: arguments by column, what is absent by default. -/
def given (s : Schema) (columns : List Name) (args : List Value) : List Value :=
  s.columns.map fun c =>
    let v := match columns.findIdx? fun n => Text.sameName n.text c.name with
      | some i => args.getD i .null
      | none => c.absent
    v.store c.affinity

/-- A replacing insert puts the default where nothing may not stand. -/
def filled (s : Schema) (values : List Value) : List Value :=
  List.zipWith (fun c v => if v = .null && c.notNull then c.absent else v) s.columns values

/-- Puts a row into the table, or says which constraint stands against it. -/
def put (t : Table) (conflict : Conflict) (r : Row) : Except Refusal (Nat × Table) :=
  let s := t.schema
  let r := if conflict = .replace then { r with values := filled s r.values } else r
  let refuse (f : Fault) : Except Refusal (Nat × Table) :=
    if conflict = .ignore then .ok (0, t) else .error ⟨f, conflict = .rollback⟩
  match nullFault? s r, checkFault? s r, uniqueFault? s t.rows r with
  | some f, _, _ => refuse f
  | none, some f, _ => refuse f
  | none, none, some f =>
    if conflict = .replace then
      .ok (1, { t with rows := insertRow r (t.rows.filter fun x => !collidesWith s r x) })
    else refuse f
  | none, none, none => .ok (1, { t with rows := insertRow r t.rows })

def insert (t : Table) (conflict : Conflict) (columns : List Name) (args : List Value) :
    Except Refusal (Nat × Table) :=
  match rowOf t.schema (given t.schema columns args) (some t.nextNumber) t.nextNumber with
  | .error f => .error ⟨f, false⟩
  | .ok r => t.put conflict r

/-- The values of a row after the assignments, all read from the row before. -/
def assigned (s : Schema) (r : Row) : List (Name × Assigned) → List Value → List Value → List Value
  | [], _, values => values
  | (c, a) :: rest, args, values =>
    let v := match a with
      | .parameter => args.headD .null
      | .increment d => (s.read r d).increment
    let args := args.drop a.parameters
    match s.place? c.text with
    | none => assigned s r rest args values
    | some i =>
      let aff := (s.columns[i]?.map (·.affinity)).getD .none
      assigned s r rest args (values.set i (v.store aff))

/-- Changes one row, unless a constraint stands against it. -/
def updateRow (t : Table) (sets : List (Name × Assigned)) (args : List Value) (r : Row) :
    Except Refusal Table :=
  let s := t.schema
  match rowOf s (assigned s r sets args r.values) none r.number with
  | .error f => .error ⟨f, false⟩
  | .ok r' =>
    let others := t.rows.filter fun x => x.number ≠ r.number
    match nullFault? s r', checkFault? s r', uniqueFault? s others r' with
    | some f, _, _ => .error ⟨f, false⟩
    | none, some f, _ => .error ⟨f, false⟩
    | none, none, some f => .error ⟨f, false⟩
    | none, none, none => .ok { t with rows := insertRow r' others }

def isChosen (t : Table) (whose : Option Name) (arg : Value) (r : Row) : Bool :=
  match whose with
  | none => true
  | some c => t.schema.equals r c arg

def updateRows (sets : List (Name × Assigned)) (args : List Value) :
    Table → List Row → Except Refusal Table
  | t, [] => .ok t
  | t, r :: rs =>
    match t.updateRow sets args r with
    | .error e => .error e
    | .ok t => updateRows sets args t rs

def update (t : Table) (sets : List (Name × Assigned)) (whose : Option Name) (args : List Value) :
    Except Refusal (Nat × Table) :=
  let rows := t.rows.filter (t.isChosen whose (args.getLast?.getD .null))
  match updateRows sets args t rows with
  | .error e => .error e
  | .ok t => .ok (rows.length, t)

def delete (t : Table) (whose : Option Name) (args : List Value) : Nat × Table :=
  let chosen := t.isChosen whose (args.getLast?.getD .null)
  (t.rows.countP chosen, { t with rows := t.rows.filter fun r => !chosen r })

end Table

namespace Contents

/-- Runs a prepared statement that writes. -/
def modify (c : Contents) (st : Statement) (args : List Value) : Except Refusal (Nat × Contents) :=
  let within (n : Name) (f : Table → Except Refusal (Nat × Table)) :
    Except Refusal (Nat × Contents) :=
    match c.table? n.text with
    | none => .error ⟨.noTable n.text, false⟩
    | some t =>
      match f t with
      | .error e => .error e
      | .ok (n, t) => .ok (n, c.setTable t)
  match st with
  | .insert conflict table columns => within table fun t => t.insert conflict columns args
  | .update table sets whose => within table fun t => t.update sets whose args
  | .delete table whose => within table fun t => .ok (t.delete whose args)
  | _ => .ok (0, c)

/-- Runs a prepared statement that reads. -/
def rows (c : Contents) (q : Selection) (args : List Value) : Except Fault Rows := do
  let t ← c.tableOf q.table
  t.select q args

end Contents

end DualWrite.Store
