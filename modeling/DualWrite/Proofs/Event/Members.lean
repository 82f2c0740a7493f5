import DualWrite.Event.Wire
import DualWrite.Proofs.Json.Objects

/-!
# Events among other members

An event is read from its three members, in any order and any spelling, whatever values other
members hold and wherever they stand. An object that lacks one of the three, or has one twice, is no
event.
-/
namespace DualWrite.Event
open Json Text

def memberKeys : List String := ["ID", "Direction", "Type"]

/-- The members of an object that have the keys of an event have its values. -/
structure Carried (e : Event) (o : Object) : Prop where
  id : ∀ m ∈ o.members, m.key = "ID" → m.value = (toString e.id).toList
  direction : ∀ m ∈ o.members, m.key = "Direction" →
    ∃ w, Spells w e.direction.toList ∧ m.value = '"' :: w ++ ['"']
  kind : ∀ m ∈ o.members, m.key = "Type" →
    ∃ w, Spells w e.kind.name.toList ∧ m.value = '"' :: w ++ ['"']

theorem takesValue_read {α β : Type} {r : Reader α} (h : TakesValue r) (f : α → β) :
    TakesValue (read r f) := by
  intro s v rest hread
  rw [read] at hread
  cases hr : r s with
  | error e =>
    rw [hr] at hread
    cases hread
  | ok p =>
    rw [hr] at hread
    obtain ⟨_, rfl⟩ := Prod.mk.inj (Except.ok.inj hread)
    exact h s p.1 p.2 hr

theorem reads_read {α β : Type} {m : Member} {r : Reader α} {v : α} (h : m.Reads r v) (f : α → β) :
    m.Reads (read r f) (f v) := by
  intro rest hrest
  rw [read, h rest hrest]
  rfl

theorem fields_takeValue : ∀ f ∈ fields, TakesValue f.read := by
  intro f hf
  simp only [fields, List.mem_cons, List.not_mem_nil, or_false] at hf
  rcases hf with rfl | rfl | rfl
  · exact takesValue_read integer_takesValue _
  · exact takesValue_read string_takesValue _
  · exact takesValue_read (kind_takesValue _) _

theorem forall_fields (P : String → Prop) :
    (∀ f ∈ fields, P f.key) ↔ ∀ key ∈ memberKeys, P key := by
  simp [fields, memberKeys]

def part (e : Event) (key : String) : Part :=
  if key = "ID" then .id e.id
  else if key = "Direction" then .direction e.direction
  else .kind e.kind

theorem lookup_kind (k : Kind) : (Kind.all.map fun k => (k.name, k)).lookup k.name = some k := by
  cases k <;> decide

theorem Carried.reads {e : Event} {o : Object} (h : Carried e o) (hmin : minInt ≤ e.id)
    (hmax : e.id ≤ maxInt) : ∀ m ∈ o.members, ∀ f, fields.find? (·.key = m.key) = some f →
      m.Reads f.read (e.part f.key) := by
  intro m hm f hf
  obtain ⟨hfield, hkey⟩ := key_of_find hf
  simp only [fields, List.mem_cons, List.not_mem_nil, or_false] at hfield
  rcases hfield with rfl | rfl | rfl
  · exact reads_read (Member.reads_integer hmin hmax (h.id m hm hkey.symm)) _
  · obtain ⟨w, hw, hvalue⟩ := h.direction m hm hkey.symm
    exact reads_read (Member.reads_string hw hvalue) _
  · obtain ⟨w, hw, hvalue⟩ := h.kind m hm hkey.symm
    exact reads_read (Member.reads_kind hw (lookup_kind e.kind) hvalue) _

theorem ofParts_part {e : Event} {ps : List (String × Part)}
    (h : ∀ f ∈ fields, ps.lookup f.key = some (e.part f.key)) : ofParts ps = e := by
  have hall := (forall_fields fun key => ps.lookup key = some (e.part key)).1 h
  simp only [memberKeys, List.forall_mem_cons] at hall
  obtain ⟨hid, hdirection, hkind, _⟩ := hall
  rw [ofParts, hid, hdirection, hkind]
  rfl

theorem atEnd_gap (bs : List Blank) : atEnd (Utf8.encode (gap bs)) = .ok () := by
  have hgap := skipBlanks_gap bs []
  rw [List.append_nil] at hgap
  rw [atEnd, hgap]
  rfl

section Documents
variable {payload : List UInt8}

theorem decode_of_record {ps : List (String × Part)} {rest : Octets}
    (h : record "struct InconsistentEvent" fields payload = .ok (ps, rest))
    (hend : atEnd rest = .ok ()) : decode payload = .ok (ofParts ps) := by
  have hreader : reader payload = .ok (ofParts ps, rest) := by
    rw [reader, read, h]
    rfl
  simp only [decode, document, hreader, hend]
  rfl

theorem decode_of_refused {f : Fault}
    (h : record "struct InconsistentEvent" fields payload = .error f) :
    decode payload = .error (.json (f.locate payload)) := by
  have hreader : reader payload = .error f := by
    rw [reader, read, h]
    rfl
  simp only [decode, document, hreader]
  rfl

end Documents

/-- An event is read from every object in which its members stand once, and from no object in which
one of them is left out or stands twice. -/
theorem objects_are_read_by_three_members (o : Object) :
    ((∀ key ∈ memberKeys, o.keys.count key = 1) →
      ∀ e : Event, minInt ≤ e.id → e.id ≤ maxInt → Carried e o →
        decode (Utf8.encode o.text) = .ok e) ∧
    ((∃ key ∈ memberKeys, o.keys.count key ≠ 1) →
      ∃ err, decode (Utf8.encode o.text) = .error err) := by
  constructor
  · intro honce e hmin hmax he
    obtain ⟨ps, hps, hlookup⟩ := record_read o "struct InconsistentEvent" (he.reads hmin hmax)
      ((forall_fields fun key => o.keys.count key = 1).2 honce)
    rw [decode_of_record hps (atEnd_gap o.after), ofParts_part hlookup]
  · rintro ⟨key, hkey, hcount⟩
    cases hread : record "struct InconsistentEvent" fields (Utf8.encode o.text) with
    | error f => exact ⟨_, decode_of_refused hread⟩
    | ok p =>
      have honce := count_of_record o "struct InconsistentEvent" fields_takeValue hread
      exact absurd ((forall_fields fun key => o.keys.count key = 1).1 honce key hkey) hcount

section Scattered

/-- Nobody's member: a list of an object, whose text has brackets and a quote in it, and of a
number. -/
def padding : Member where
  key := "pad"
  spelling := "pad".toList
  spelled := spells_itself (itself_of_all (by decide))
  value := _
  derived := .list (.items [.space] []
    (.object (.member ⟨[], [], [], [.space]⟩
      (.plain (by decide : 0x20 ≤ 'a'.toNat) (by decide) (by decide) .nil)
      (.text (.plain (by decide : 0x20 ≤ '\x7d'.toNat) (by decide) (by decide)
        (.plain (by decide : 0x20 ≤ ']'.toNat) (by decide) (by decide)
          (.short (by decide : '\\' ∈ shortLetters)
            (.short (by decide : '"' ∈ shortLetters) .nil)))))))
    (.item [.feed] [.space] (.number
      (show Numeral (['-'] ++ ['1'] ++ ['.', '5'] ++ ('e' :: ['+'] ++ ['3'])) from
        .mk (by decide) (.digits (by decide) (by decide) (List.forall_mem_nil _))
          (.point (.of_all (by decide)))
          (.mark (by decide) (by decide) (.of_all (by decide)))))))
  layout := ⟨[.space], [], [.space], [.carriage, .feed]⟩

def idMember : Member where
  key := "ID"
  spelling := "ID".toList
  spelled := spells_itself (itself_of_all (by decide))
  value := _
  derived := .number (show Numeral (['-'] ++ ['7'] ++ [] ++ []) from
    .mk (by decide) (.digits (by decide) (by decide) (List.forall_mem_nil _)) .none .none)
  layout := ⟨[.tab], [.space], [.feed], []⟩

def typeMember : Member where
  key := "Type"
  spelling := _
  spelled := @Spells.code ['0', '0', '5', '4'] _ _ _ (.of_all (by decide))
    (show Spells "ype".toList "ype".toList from spells_itself (itself_of_all (by decide)))
  value := _
  derived := .text (@Letters.code ['0', '0', '6', 'E'] _ 110 (.of_all (by decide))
    (.plain (by decide : 0x20 ≤ 'e'.toNat) (by decide) (by decide)
      (.plain (by decide : 0x20 ≤ 'q'.toNat) (by decide) (by decide) .nil)))
  layout := ⟨[], [], [], []⟩

/-- A character beyond sixteen bits by two codes, and a solidus behind a backslash. -/
theorem clef_spelled : Spells
    ('\\' :: 'u' :: ['D', '8', '3', '4'] ++ '\\' :: 'u' :: ['d', 'd', '1', 'e'] ++ ['\\', '/'])
    "𝄞/".toList :=
  @Spells.pair _ _ _ _ 0xD834 0xDD1E (.of_all (by decide)) (.of_all (by decide)) rfl rfl
    (.short (by decide : ('/', '/') ∈ shortForms) .nil)

def directionMember : Member where
  key := "Direction"
  spelling := "Direction".toList
  spelled := spells_itself (itself_of_all (by decide))
  value := _
  derived := .text clef_spelled.letters
  layout := ⟨[], [], [.space], [.space]⟩

def scattered (ms : List Member) : Object := ⟨ms, [.feed], [.space], [.carriage, .feed]⟩

def spread : Object := scattered [padding, typeMember, idMember, padding, directionMember]

theorem carried_spread : Carried ⟨-7, "𝄞/", .unequal⟩ spread := by
  constructor <;> intro m hm hkey <;>
    simp only [spread, scattered, List.mem_cons, List.not_mem_nil, or_false] at hm <;>
    rcases hm with rfl | rfl | rfl | rfl | rfl
  case id.inr.inr.inl => decide
  case direction.inr.inr.inr.inr => exact ⟨_, clef_spelled, rfl⟩
  case kind.inr.inl =>
    refine ⟨_, @Spells.code ['0', '0', '6', 'E'] _ _ 'n' (.of_all (by decide)) ?_, rfl⟩
    exact (show Spells "eq".toList "eq".toList from spells_itself (itself_of_all (by decide)))
  all_goals exact absurd hkey (by decide)

/-- An event is read out of an object that spells it in an odd way; with its id twice it is not. -/
theorem scattered_members_are_read :
    let twice := scattered [idMember, typeMember, directionMember, padding, idMember]
    String.ofList spread.text =
      "\n\x7b  \"pad\": [ \x7b\"a\":\"\x7d]\\\\\\\"\" \x7d,\n-1.5e+3 ]\x0d\n,\"\\u0054ype\":\"\\u006Eeq\"," ++
      "\t\"ID\" :\n-7, \"pad\": [ \x7b\"a\":\"\x7d]\\\\\\\"\" \x7d,\n-1.5e+3 ]\x0d\n," ++
      "\"Direction\": \"\\uD834\\udd1e\\/\" \x7d\x0d\n" ∧
    (∀ key ∈ memberKeys, spread.keys.count key = 1) ∧
    decode (Utf8.encode spread.text) = .ok ⟨-7, "𝄞/", .unequal⟩ ∧
    twice.keys.count "ID" = 2 ∧ ∃ err, decode (Utf8.encode twice.text) = .error err := by
  intro twice
  have honce : ∀ key ∈ memberKeys, spread.keys.count key = 1 := by decide
  have htwice : twice.keys.count "ID" = 2 := by decide
  refine ⟨by decide +kernel, honce, ?_, htwice, ?_⟩
  · exact (objects_are_read_by_three_members spread).1 honce _ (by decide)
      (by decide) carried_spread
  · exact (objects_are_read_by_three_members twice).2 ⟨"ID", by decide, by rw [htwice]; decide⟩

end Scattered

end DualWrite.Event
