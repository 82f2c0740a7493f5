import DualWrite.Proofs.Json.Decimal
import DualWrite.Proofs.Json.Text

/-!
# Records

The members of an object are read one by one as they are written. A record that can be read, whether
it is an object or a list, has a value for each of its fields, and each value is one that the reader
of a field gave. A whole number that was read has sixty-four bits.
-/
namespace DualWrite.Json
open Text

section Written
variable {V : Type}

theorem member_field {field : Field V} {v : V} {s rest : Octets} (key : String)
    (h : field.read s = .ok (v, rest)) :
    member (some field) key (0x3A :: s) = .ok (some (field.key, v), rest) := by
  have hcolon : colon (0x3A :: s) = .ok ((), s) := rfl
  simp [member, within, hcolon, h]

theorem members_field {fields : List (Field V)} {field : Field V} {seen seen' : List (String × V)}
    {first : Bool} {lead value rest : Octets} {v : V} (key : String)
    (hlead : ∀ r, toKey first (lead ++ r) = .ok (true, r)) (hkey : ∀ c ∈ key.toList, Itself c)
    (hfield : fields.find? (·.key = key) = some field) (hnew : seen.lookup key = none)
    (hseen : seen ++ [(field.key, v)] = seen')
    (hread : field.read (value ++ rest) = .ok (v, rest)) :
    members fields seen first
        (lead ++ (Utf8.encode key.toList ++ 0x22 :: 0x3A :: (value ++ rest))) =
      members fields seen' false rest := by
  subst hseen
  have hlength : rest.length <
      (lead ++ (Utf8.encode key.toList ++ 0x22 :: 0x3A :: (value ++ rest))).length := by
    simp only [List.length_append, List.length_cons]
    omega
  rw [members, hlead]
  simp only [text_itself hkey, hnew, Option.isSome_none, Bool.false_eq_true, if_false, hfield,
    member_field key hread, if_pos hlength, Option.toList_some]

theorem members_refuses {fields : List (Field V)} {field : Field V} {seen : List (String × V)}
    {first : Bool} {lead value : Octets} (key : String)
    (hlead : ∀ r, toKey first (lead ++ r) = .ok (true, r)) (hkey : ∀ c ∈ key.toList, Itself c)
    (hfield : fields.find? (·.key = key) = some field) (hnew : seen.lookup key = none)
    (hread : ∃ f, field.read value = .error f) :
    ∃ f, members fields seen first (lead ++ (Utf8.encode key.toList ++ 0x22 :: 0x3A :: value)) =
      .error f := by
  obtain ⟨f, hf⟩ := hread
  have hcolon : colon (0x3A :: value) = .ok ((), value) := rfl
  have hmember : ∃ f, member (some field) key (0x3A :: value) = .error f := by
    simp [member, within, hcolon, hf]
  obtain ⟨f, hf⟩ := hmember
  rw [members, hlead]
  simp only [text_itself hkey, hnew, Option.isSome_none, Bool.false_eq_true, if_false, hfield, hf]
  exact ⟨f, rfl⟩

theorem record_refuses {fields : List (Field V)} (name : String) {r : Octets}
    (h : ∃ f, members fields [] true r = .error f) :
    ∃ f, record name fields (0x7B :: r) = .error f := by
  have hopen : skipBlanks (0x7B :: r) = 0x7B :: r := rfl
  obtain ⟨f, hf⟩ := h
  exact ⟨f, by simp only [record, hopen, if_true, hf]⟩

theorem members_end (fields : List (Field V)) (seen : List (String × V)) (rest : Octets) :
    members fields seen false (0x7D :: rest) = .ok (seen, rest) := by
  have hend : toKey false (0x7D :: rest) = .ok (false, rest) := rfl
  rw [members, hend]

end Written

section Read
variable {V : Type} {fields : List (Field V)} {P : String × V → Prop}

theorem refuseType_ne_ok {α : Type} (wanted : String) (s : Octets) (r : α × Octets) :
    refuseType wanted s ≠ .ok r := by
  unfold refuseType
  dsimp only
  repeat' split
  all_goals nofun

theorem lookup_of_mem_keys {vs : List (String × V)} {key : String} (h : key ∈ vs.map (·.1)) :
    (vs.lookup key).isSome := by
  rw [Option.isSome_iff_ne_none, ne_eq, List.lookup_eq_none_iff]
  intro hnone
  obtain ⟨p, hp, rfl⟩ := List.mem_map.1 h
  simpa using hnone p hp

theorem mem_of_lookup {vs : List (String × V)} {key : String} {v : V} (h : vs.lookup key = some v) :
    (key, v) ∈ vs := by
  obtain ⟨before, after, rfl, _⟩ := List.lookup_eq_some_iff.1 h
  simp

end Read

end DualWrite.Json
