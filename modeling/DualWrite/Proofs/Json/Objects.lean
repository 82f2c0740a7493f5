import DualWrite.Proofs.Json.Passing
import DualWrite.Proofs.Json.Spelling
import Mathlib.Data.List.Nodup

/-!
# Objects with known members and others

An object is read by the keys of its members alone: those that no field has are passed over with
their values, wherever they stand. The known ones are read in any order, and each of them must stand
once.
-/
namespace DualWrite.Json
open Text

/-- A member of an object as a document may spell it. -/
structure Member where
  key : String
  spelling : List Char
  spelled : Spells spelling key.toList
  value : List Char
  derived : Derives .value value
  layout : Layout

namespace Member

def text (m : Member) : List Char := m.layout.member m.spelling m.value

def behindValue (m : Member) (rest : Octets) : Octets :=
  Utf8.encode (gap m.layout.afterValue) ++ rest

def behindColon (m : Member) (rest : Octets) : Octets :=
  Utf8.encode (gap m.layout.beforeValue) ++ (Utf8.encode m.value ++ m.behindValue rest)

def behindKey (m : Member) (rest : Octets) : Octets :=
  Utf8.encode (gap m.layout.beforeColon) ++ 0x3A :: m.behindColon rest

section Text
variable (m : Member) (rest : Octets)

theorem encode_text : Utf8.encode m.text ++ rest = Utf8.encode (gap m.layout.beforeKey) ++
    0x22 :: (Utf8.encode m.spelling ++ 0x22 :: m.behindKey rest) := by
  simp only [text, Layout.member, behindKey, behindColon, behindValue, Utf8.encode_append,
    Utf8.encode_cons, octets_of_marks, List.append_assoc, List.cons_append, List.nil_append]

theorem text_key : Json.text (Utf8.encode m.spelling ++ 0x22 :: m.behindKey rest) =
    .ok (m.key, m.behindKey rest) := text_spells m.spelled _

theorem colon_behindKey : colon (m.behindKey rest) = .ok ((), m.behindColon rest) := by
  have hcolon : ∀ r, skipBlanks (0x3A :: r) = 0x3A :: r := fun _ => rfl
  rw [colon, behindKey, skipBlanks_gap, hcolon]
  rfl

theorem endsNumber_behindValue (hrest : EndsNumber rest) : EndsNumber (m.behindValue rest) :=
  endsNumber_gap m.layout.afterValue hrest

theorem skip_behindColon (hrest : EndsNumber rest) :
    skip (m.behindColon rest) = .ok (m.behindValue rest) := by
  rw [skip, behindColon, skipFrom_gap m.layout.beforeValue fun _ => onto_value_blank _]
  exact skip_value m.derived (m.endsNumber_behindValue rest hrest)

end Text

/-- A reader gives this value for the value of the member, whatever follows. -/
def Reads {V : Type} (m : Member) (read : Reader V) (v : V) : Prop :=
  ∀ rest, EndsNumber rest → read (m.behindColon rest) = .ok (v, m.behindValue rest)

theorem reads_integer {m : Member} {n : Int} (hmin : minInt ≤ n) (hmax : n ≤ maxInt)
    (hm : m.value = (toString n).toList) : m.Reads integer n := by
  intro rest hrest
  have hread := integer_encode hmin hmax (m.endsNumber_behindValue rest hrest)
  unfold integer at hread ⊢
  rw [behindColon, skipBlanks_gap, hm]
  exact hread

theorem reads_string {m : Member} {w : List Char} {t : String} (hw : Spells w t.toList)
    (hm : m.value = '"' :: w ++ ['"']) : m.Reads string t := by
  intro rest _
  have hread := string_spells hw (m.behindValue rest)
  unfold string at hread ⊢
  rw [behindColon, skipBlanks_gap, hm]
  exact hread

theorem reads_kind {m : Member} {α : Type} {kinds : List (String × α)} {w : List Char}
    {t : String} {k : α}
    (hw : Spells w t.toList) (hk : kinds.lookup t = some k) (hm : m.value = '"' :: w ++ ['"']) :
    m.Reads (kind kinds) k := by
  intro rest _
  have hread := kind_spells hw hk (m.behindValue rest)
  unfold kind at hread ⊢
  rw [behindColon, skipBlanks_gap, hm]
  exact hread

end Member

def joined : List Member → List Char
  | [] => []
  | m :: ms => m.text ++ ms.flatMap fun n => ',' :: n.text

/-- A text that is an object, with blanks around it and behind its brace. -/
structure Object where
  members : List Member
  before : List Blank
  inner : List Blank
  after : List Blank

namespace Object

def text (o : Object) : List Char :=
  gap o.before ++ '\x7b' :: gap o.inner ++ joined o.members ++ '\x7d' :: gap o.after

def keys (o : Object) : List String := o.members.map Member.key

theorem encode_text (o : Object) : Utf8.encode o.text = Utf8.encode (gap o.before) ++
    0x7B :: (Utf8.encode (gap o.inner) ++ (Utf8.encode (joined o.members) ++
      0x7D :: Utf8.encode (gap o.after))) := by
  simp only [text, Utf8.encode_append, Utf8.encode_cons, octets_of_marks, List.append_assoc,
    List.cons_append, List.nil_append]

end Object

section Steps
variable {V : Type} (fields : List (Field V)) (seen : List (String × V))

def lead : Bool → Octets
  | true => []
  | false => [0x2C]

theorem toKey_member (first : Bool) (bs : List Blank) (m : Member) (rest : Octets) :
    toKey first (Utf8.encode (gap bs) ++ (lead first ++ (Utf8.encode m.text ++ rest))) =
      .ok (true, Utf8.encode m.spelling ++ 0x22 :: m.behindKey rest) := by
  have hquote : ∀ r, skipBlanks (0x22 :: r) = 0x22 :: r := fun _ => rfl
  have hcomma : ∀ r, skipBlanks (0x2C :: r) = 0x2C :: r := fun _ => rfl
  rw [m.encode_text]
  cases first with
  | true =>
    rw [toKey, skipBlanks_gap, lead, List.nil_append, skipBlanks_gap, hquote]
    rfl
  | false =>
    rw [toKey, skipBlanks_gap, lead, List.singleton_append, hcomma]
    simp only [skipBlanks_gap, hquote]
    rfl

/-- The key of a member is read, and what happens then depends on it. -/
theorem members_member (first : Bool) (bs : List Blank) (m : Member) (rest : Octets) :
    members fields seen first
        (Utf8.encode (gap bs) ++ (lead first ++ (Utf8.encode m.text ++ rest))) =
      if (seen.lookup m.key).isSome then
        .error (faultAt (.duplicateField m.key) (pastEnd 0x7D (m.behindKey rest)))
      else match member (fields.find? (·.key = m.key)) m.key (m.behindKey rest) with
        | .error f => .error f
        | .ok (x, r) =>
          if r.length <
              (Utf8.encode (gap bs) ++ (lead first ++ (Utf8.encode m.text ++ rest))).length then
            members fields (seen ++ x.toList) false r
          else .error (faultAt .endInObject r) := by
  generalize hread : members fields seen first _ = result
  rw [members, toKey_member] at hread
  simp only [m.text_key] at hread
  exact hread.symm

theorem behindValue_shorter (first : Bool) (bs : List Blank) (m : Member) (rest : Octets) :
    (m.behindValue rest).length <
      (Utf8.encode (gap bs) ++ (lead first ++ (Utf8.encode m.text ++ rest))).length := by
  rw [m.encode_text]
  simp only [Member.behindKey, Member.behindColon, List.length_append, List.length_cons]
  omega

variable {fields seen} (first : Bool) (bs : List Blank) {m : Member} {rest : Octets}

theorem members_known_twice (h : (seen.lookup m.key).isSome) :
    ∃ f, members fields seen first
        (Utf8.encode (gap bs) ++ (lead first ++ (Utf8.encode m.text ++ rest))) = .error f := by
  rw [members_member, if_pos h]
  exact ⟨_, rfl⟩

theorem members_unknown (hnew : seen.lookup m.key = none) (hm : fields.find? (·.key = m.key) = none)
    (hrest : EndsNumber rest) :
    members fields seen first
        (Utf8.encode (gap bs) ++ (lead first ++ (Utf8.encode m.text ++ rest))) =
      members fields seen false (m.behindValue rest) := by
  have hmember : member (fields.find? (·.key = m.key)) m.key (m.behindKey rest) =
      .ok (none, m.behindValue rest) := by
    simp only [member, within, hm, m.colon_behindKey, m.skip_behindColon rest hrest]
  rw [members_member, if_neg (by simp [hnew]), hmember]
  refine (if_pos (behindValue_shorter first bs m rest)).trans ?_
  rw [Option.toList_none, List.append_nil]

variable {field : Field V}

theorem members_known {v : V} (hnew : seen.lookup m.key = none)
    (hm : fields.find? (·.key = m.key) = some field)
    (hread : field.read (m.behindColon rest) = .ok (v, m.behindValue rest)) :
    members fields seen first
        (Utf8.encode (gap bs) ++ (lead first ++ (Utf8.encode m.text ++ rest))) =
      members fields (seen ++ [(field.key, v)]) false (m.behindValue rest) := by
  have hmember : member (fields.find? (·.key = m.key)) m.key (m.behindKey rest) =
      .ok (some (field.key, v), m.behindValue rest) := by
    simp only [member, within, hm, m.colon_behindKey, hread]
  rw [members_member, if_neg (by simp [hnew]), hmember]
  exact if_pos (behindValue_shorter first bs m rest)

theorem members_known_unread (hnew : seen.lookup m.key = none)
    (hm : fields.find? (·.key = m.key) = some field)
    (hread : ∃ f, field.read (m.behindColon rest) = .error f) :
    ∃ f, members fields seen first
        (Utf8.encode (gap bs) ++ (lead first ++ (Utf8.encode m.text ++ rest))) = .error f := by
  obtain ⟨f, hf⟩ := hread
  have hmember : member (fields.find? (·.key = m.key)) m.key (m.behindKey rest) =
      .error { f with path := .key m.key :: f.path } := by
    simp only [member, within, hm, m.colon_behindKey, hf]
  rw [members_member, if_neg (by simp [hnew]), hmember]
  exact ⟨_, rfl⟩

/-- A member that was read is new, and its value was passed over or read as that of a field. -/
theorem members_ok_cases (htakes : ∀ f ∈ fields, TakesValue f.read) (hrest : EndsNumber rest)
    {p : List (String × V) × Octets}
    (h : members fields seen first
      (Utf8.encode (gap bs) ++ (lead first ++ (Utf8.encode m.text ++ rest))) = .ok p) :
    seen.lookup m.key = none ∧
    (fields.find? (·.key = m.key) = none ∧ members fields seen false (m.behindValue rest) = .ok p ∨
      ∃ f v, fields.find? (·.key = m.key) = some f ∧
        members fields (seen ++ [(f.key, v)]) false (m.behindValue rest) = .ok p) := by
  cases hnew : seen.lookup m.key with
  | some v =>
    have htwice : (seen.lookup m.key).isSome := by rw [hnew]; rfl
    obtain ⟨f, hf⟩ := members_known_twice first bs htwice
    rw [hf] at h
    cases h
  | none =>
    refine ⟨rfl, ?_⟩
    cases hm : fields.find? (·.key = m.key) with
    | none =>
      rw [members_unknown first bs hnew hm hrest] at h
      exact .inl ⟨rfl, h⟩
    | some f =>
      cases hread : f.read (m.behindColon rest) with
      | error e =>
        obtain ⟨e', he⟩ := members_known_unread first bs hnew hm ⟨e, hread⟩
        rw [he] at h
        cases h
      | ok vr =>
        have hskip := htakes f (List.mem_of_find?_eq_some hm) _ _ _ hread
        rw [m.skip_behindColon _ hrest] at hskip
        have hread' : f.read (m.behindColon rest) = .ok (vr.1, m.behindValue rest) := by
          rw [hread, Except.ok.inj hskip]
        rw [members_known first bs hnew hm hread'] at h
        exact .inr ⟨f, vr.1, rfl, h⟩

end Steps

theorem toKey_close (first : Bool) (bs : List Blank) (rest : Octets) :
    toKey first (Utf8.encode (gap bs) ++ 0x7D :: rest) = .ok (false, rest) := by
  rw [toKey, skipBlanks_gap]
  rfl

/-- The members that are still to be read, and what stands behind them. -/
def remaining (first : Bool) : List Member → Octets → Octets
  | [], rest => rest
  | m :: ms, rest => lead first ++ (Utf8.encode m.text ++ remaining false ms rest)

theorem encode_joined (ms : List Member) (rest : Octets) :
    Utf8.encode (joined ms) ++ rest = remaining true ms rest := by
  have hmore : ∀ ms, Utf8.encode (ms.flatMap fun n : Member => ',' :: n.text) ++ rest =
      remaining false ms rest := by
    intro ms
    induction ms with
    | nil => rfl
    | cons m ms ih =>
      rw [List.flatMap_cons, remaining, ← ih, lead]
      simp only [Utf8.encode_append, Utf8.encode_cons, octets_of_marks, List.append_assoc,
        List.cons_append, List.nil_append]
  cases ms with
  | nil => rfl
  | cons m ms =>
    rw [joined, Utf8.encode_append, List.append_assoc, hmore, remaining, lead, List.nil_append]

theorem endsNumber_remaining (ms : List Member) (rest : Octets) :
    EndsNumber (remaining false ms (0x7D :: rest)) := by
  cases ms with
  | nil => exact endsNumber_cons rfl (by decide) rfl rest
  | cons m ms => exact endsNumber_comma _

section Runs
variable {V : Type} {fields : List (Field V)}

def isKnown (fields : List (Field V)) (key : String) : Bool := (fields.find? (·.key = key)).isSome

theorem isKnown_iff {key : String} : isKnown fields key = true ↔ ∃ f ∈ fields, f.key = key := by
  simp [isKnown, List.find?_isSome]

theorem key_of_find {key : String} {field : Field V} (h : fields.find? (·.key = key) = some field) :
    field ∈ fields ∧ field.key = key :=
  ⟨List.mem_of_find?_eq_some h, by simpa using List.find?_some h⟩

def knownKeys (fields : List (Field V)) (ms : List Member) : List String :=
  (ms.map Member.key).filter (isKnown fields)

theorem knownKeys_unknown {m : Member} (hm : fields.find? (·.key = m.key) = none)
    (ms : List Member) : knownKeys fields (m :: ms) = knownKeys fields ms := by
  simp [knownKeys, isKnown, hm]

theorem knownKeys_known {m : Member} {field : Field V}
    (hm : fields.find? (·.key = m.key) = some field)
    (ms : List Member) : knownKeys fields (m :: ms) = field.key :: knownKeys fields ms := by
  simp [knownKeys, isKnown, hm, (key_of_find hm).2]

theorem lookup_eq_none {seen : List (String × V)} {key : String} :
    seen.lookup key = none ↔ key ∉ seen.map (·.1) := by
  constructor
  · intro h hkey
    have hthere := lookup_of_mem_keys hkey
    rw [h] at hthere
    cases hthere
  · intro h
    cases hlookup : seen.lookup key with
    | none => rfl
    | some v => exact absurd (List.mem_map_of_mem (mem_of_lookup hlookup)) h

/-- Before the first member no key has been seen. -/
theorem noneSeen : ∀ key ∈ ([] : List (String × V)).map (·.1), isKnown fields key = true := by
  intro key hkey
  cases hkey

variable {seen : List (String × V)} (hseen : ∀ key ∈ seen.map (·.1), isKnown fields key = true)
include hseen

theorem lookup_unknown {key : String} (h : fields.find? (·.key = key) = none) :
    seen.lookup key = none := by
  refine lookup_eq_none.2 fun hkey => ?_
  have hknown := hseen key hkey
  simp [isKnown, h] at hknown

theorem isKnown_seen {field : Field V} (hfield : field ∈ fields) (v : V) :
    ∀ key ∈ (seen ++ [(field.key, v)]).map (·.1), isKnown fields key = true := by
  intro key hkey
  rw [List.map_append, List.mem_append] at hkey
  rcases hkey with hkey | hkey
  · exact hseen key hkey
  · exact isKnown_iff.2 ⟨field, hfield, (List.mem_singleton.1 hkey).symm⟩

/-- Legible members with known keys that differ are read, whatever stands between them. -/
theorem members_read {value : String → V} {ms : List Member}
    (hvalues : ∀ m ∈ ms, ∀ f, fields.find? (·.key = m.key) = some f → m.Reads f.read (value f.key))
    (hkeys : (seen.map (·.1) ++ knownKeys fields ms).Nodup) (first : Bool) (bs : List Blank)
    (rest : Octets) :
    members fields seen first (Utf8.encode (gap bs) ++ remaining first ms (0x7D :: rest)) =
      .ok (seen ++ (knownKeys fields ms).map fun key => (key, value key), rest) := by
  induction ms generalizing seen first bs with
  | nil =>
    rw [remaining, members, toKey_close]
    simp [knownKeys]
  | cons m ms ih =>
    have hrest := endsNumber_remaining ms rest
    have hmore : ∀ n ∈ ms, ∀ f, fields.find? (·.key = n.key) = some f →
      n.Reads f.read (value f.key) :=
      fun n hn => hvalues n (List.mem_cons_of_mem _ hn)
    cases hm : fields.find? (·.key = m.key) with
    | none =>
      rw [knownKeys_unknown hm] at hkeys ⊢
      rw [remaining, members_unknown first bs (lookup_unknown hseen hm) hm hrest]
      exact ih hseen hmore hkeys false m.layout.afterValue
    | some f =>
      obtain ⟨hf, hkey⟩ := key_of_find hm
      rw [knownKeys_known hm] at hkeys ⊢
      have hnew : seen.lookup m.key = none := by
        refine lookup_eq_none.2 fun hmem => ?_
        exact (List.nodup_append.1 hkeys).2.2 _ hmem _ (List.mem_cons_self) hkey.symm
      have hread := hvalues m List.mem_cons_self f hm _ hrest
      rw [remaining, members_known first bs hnew hm hread]
      refine (ih (isKnown_seen hseen hf _) hmore ?_ false m.layout.afterValue).trans ?_
      · simpa using hkeys
      · simp

omit hseen

theorem nodup_seen (hdistinct : (seen.map (·.1)).Nodup) {key : String}
    (hnew : seen.lookup key = none) (v : V) : ((seen ++ [(key, v)]).map (·.1)).Nodup := by
  rw [List.map_append, List.map_singleton, List.nodup_append]
  refine ⟨hdistinct, List.nodup_singleton _, ?_⟩
  rintro key' hmem _ hsame rfl
  rw [List.mem_singleton.1 hsame] at hmem
  exact lookup_eq_none.1 hnew hmem

/-- An object that was read has known keys that differ. -/
theorem members_keys (htakes : ∀ f ∈ fields, TakesValue f.read) (hdistinct : (seen.map (·.1)).Nodup)
    {ms : List Member} {first : Bool} {bs : List Blank} {rest r : Octets} {vs : List (String × V)}
    (h : members fields seen first (Utf8.encode (gap bs) ++ remaining first ms (0x7D :: rest)) =
      .ok (vs, r)) :
    vs.map (·.1) = seen.map (·.1) ++ knownKeys fields ms ∧ (vs.map (·.1)).Nodup := by
  induction ms generalizing seen first bs with
  | nil =>
    rw [remaining, members, toKey_close] at h
    obtain ⟨rfl, _⟩ := Prod.mk.inj (Except.ok.inj h)
    exact ⟨by simp [knownKeys], hdistinct⟩
  | cons m ms ih =>
    rw [remaining] at h
    obtain ⟨hnew, ⟨hm, hmore⟩ | ⟨f, v, hm, hmore⟩⟩ :=
      members_ok_cases first bs htakes (endsNumber_remaining ms rest) h
    · rw [knownKeys_unknown hm]
      exact ih hdistinct hmore
    · rw [← (key_of_find hm).2] at hnew
      obtain ⟨hkeys, hnodup⟩ := ih (nodup_seen hdistinct hnew v) hmore
      refine ⟨?_, hnodup⟩
      rw [hkeys, knownKeys_known hm]
      simp

end Runs

section Records
variable {V : Type} {fields : List (Field V)} (o : Object) (name : String)

theorem count_knownKeys {field : Field V} (hfield : field ∈ fields) :
    (knownKeys fields o.members).count field.key = o.keys.count field.key :=
  List.count_filter (isKnown_iff.2 ⟨field, hfield, rfl⟩)

theorem mem_knownKeys {key : String} (h : key ∈ knownKeys fields o.members) :
    ∃ field ∈ fields, field.key = key := isKnown_iff.1 (List.mem_filter.1 h).2

theorem lookup_map {value : String → V} {key : String} {keys : List String} (h : key ∈ keys) :
    (keys.map fun key => (key, value key)).lookup key = some (value key) := by
  induction keys with
  | nil => cases h
  | cons k keys ih =>
    rw [List.map_cons, List.lookup_cons]
    cases hk : key == k with
    | true => rw [eq_of_beq hk]
    | false =>
      have hne : key ≠ k := ne_of_beq_false hk
      exact ih ((List.mem_cons.1 h).resolve_left hne)

theorem record_eq : record name fields (Utf8.encode o.text) =
    match members fields [] true (Utf8.encode (gap o.inner) ++
      remaining true o.members (0x7D :: Utf8.encode (gap o.after))) with
    | .error f => .error f
    | .ok (vs, rest) =>
      match fields.find? fun f => (vs.lookup f.key).isNone with
      | some f => .error (faultAt (.missingField f.key) rest)
      | none => .ok (vs, rest) := by
  have hopen : ∀ r, skipBlanks (0x7B :: r) = 0x7B :: r := fun _ => rfl
  rw [record, o.encode_text, skipBlanks_gap, hopen, encode_joined]
  rfl

/-- An object in which each field stands once is read, whatever its other members are. -/
theorem record_read {value : String → V} (hvalues : ∀ m ∈ o.members, ∀ f,
      fields.find? (·.key = m.key) = some f → m.Reads f.read (value f.key))
    (honce : ∀ f ∈ fields, o.keys.count f.key = 1) : ∃ vs,
    record name fields (Utf8.encode o.text) = .ok (vs, Utf8.encode (gap o.after)) ∧
      ∀ f ∈ fields, vs.lookup f.key = some (value f.key) := by
  have hdistinct : (knownKeys fields o.members).Nodup := by
    refine List.nodup_iff_count_le_one.2 fun key => ?_
    by_cases hkey : key ∈ knownKeys fields o.members
    · obtain ⟨f, hf, rfl⟩ := mem_knownKeys o hkey
      exact Nat.le_of_eq ((count_knownKeys o hf).trans (honce f hf))
    · rw [List.count_eq_zero_of_not_mem hkey]
      exact Nat.zero_le 1
  have hthere : ∀ f ∈ fields, f.key ∈ knownKeys fields o.members := by
    intro f hf
    rw [← List.count_pos_iff, count_knownKeys o hf, honce f hf]
    exact Nat.one_pos
  have hlookup : ∀ f ∈ fields, ((knownKeys fields o.members).map fun key => (key, value key)).lookup
      f.key = some (value f.key) := fun f hf => lookup_map (hthere f hf)
  have hread := members_read noneSeen hvalues (by simpa using hdistinct) true o.inner
    (Utf8.encode (gap o.after))
  have hnone : (fields.find? fun f => (((knownKeys fields o.members).map fun key =>
      (key, value key)).lookup f.key).isNone) = none := by
    refine List.find?_eq_none.2 fun f hf => ?_
    rw [hlookup f hf]
    exact Bool.false_ne_true
  rw [List.nil_append] at hread
  refine ⟨_, ?_, hlookup⟩
  rw [record_eq, hread]
  simp only [hnone]

/-- Only objects in which each field stands once are read. -/
theorem count_of_record (htakes : ∀ f ∈ fields, TakesValue f.read) {vs : List (String × V)}
    {rest : Octets} (h : record name fields (Utf8.encode o.text) = .ok (vs, rest)) :
    ∀ f ∈ fields, o.keys.count f.key = 1 := by
  rw [record_eq] at h
  split at h
  · cases h
  · next vs' rest' hmembers =>
    split at h
    · cases h
    · next hnone =>
      have hnil : (([] : List (String × V)).map (·.1)).Nodup := List.nodup_nil
      obtain ⟨hkeys, hdistinct⟩ := members_keys htakes hnil hmembers
      rw [List.map_nil, List.nil_append] at hkeys
      intro f hf
      have hthere := List.find?_eq_none.1 hnone f hf
      rw [Option.isNone_iff_eq_none, lookup_eq_none, Classical.not_not, hkeys] at hthere
      rw [← count_knownKeys o hf]
      exact List.count_eq_one_of_mem (hkeys ▸ hdistinct) hthere

end Records

end DualWrite.Json
