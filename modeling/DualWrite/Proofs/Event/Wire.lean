import DualWrite.Control.World
import DualWrite.Event.Wire
import DualWrite.Proofs.Json.Record

/-!
# Events come back from the wire

What is written for an event is read as that event, whatever its direction, as long as its id has
sixty-four bits. So events that differ are written differently.
-/
namespace DualWrite
open Json Text

namespace Event

def shortEscaped : List Char := ['"', '\\', '\x08', '\x0c', '\n', '\r', '\t']

theorem escape_short {c : Char} (hc : c ∈ shortEscaped) :
    ∃ e x, Utf8.encode (escape c) = [0x5C, e] ∧
    Utf8.encode [c] = [x] ∧ e ≠ 0x75 ∧ shortEscape e = some x := by
  simp only [shortEscaped, List.mem_cons, List.not_mem_nil, or_false] at hc
  rcases hc with rfl | rfl | rfl | rfl | rfl | rfl | rfl <;> exact ⟨_, _, rfl, rfl, by decide, rfl⟩

theorem escape_control {c : Char} (hlow : c.toNat < 0x20) (hc : c ∉ shortEscaped) :
    ∃ a b, Utf8.encode (escape c) = [0x5C, 0x75, 0x30, 0x30, a, b] ∧
      hexValue 0x30 0x30 a b = some c.toNat := by
  have hall : ∀ n < 0x20, Char.ofNat n ∉ shortEscaped →
      let bs := Utf8.encode (escape (Char.ofNat n))
      bs = [0x5C, 0x75, 0x30, 0x30, bs.getD 4 0, bs.getD 5 0] ∧
        hexValue 0x30 0x30 (bs.getD 4 0) (bs.getD 5 0) = some n := by decide
  have hthis := hall c.toNat hlow
  rw [c.ofNat_toNat] at hthis
  exact ⟨_, _, hthis hc⟩

theorem escape_plain {c : Char} (hlow : 0x20 ≤ c.toNat) (hc : c ∉ shortEscaped) :
    escape c = [c] := by
  simp only [shortEscaped, List.mem_cons, List.not_mem_nil, or_false, not_or] at hc
  simp [escape, hc, Nat.not_lt.2 hlow]

section Escapes
variable {s bs rest : Octets} (hs : content s = .ok (bs, rest))
include hs

theorem content_escape (c : Char) :
    content (Utf8.encode (escape c) ++ s) = .ok (Utf8.encode [c] ++ bs, rest) := by
  by_cases hshort : c ∈ shortEscaped
  · obtain ⟨e, x, he, hx, hcode, hstands⟩ := escape_short hshort
    rw [he, hx]
    exact content_short hs hcode hstands
  by_cases hlow : c.toNat < 0x20
  · obtain ⟨a, b, he, hvalue⟩ := escape_control hlow hshort
    have hleading : isLeading c.toNat = false := by
      simp [isLeading]
      omega
    have htrailing : isTrailing c.toNat = false := by
      simp [isTrailing]
      omega
    have hcode := content_code hs hvalue hleading htrailing
    rw [c.ofNat_toNat] at hcode
    rw [he]
    exact hcode
  · rw [escape_plain (Nat.not_lt.1 hlow) hshort]
    simp only [shortEscaped, List.mem_cons, List.not_mem_nil, or_false, not_or] at hshort
    have hplain := plain_octets (Nat.not_lt.1 hlow) hshort.1 hshort.2.1
    rw [show Utf8.encode [c] = String.utf8EncodeChar c from List.append_nil _]
    exact content_append hplain hs

end Escapes

/-- What is written for a text is read as that text. -/
theorem text_escape (s : String) (rest : Octets) :
    text (Utf8.encode (s.toList.flatMap escape) ++ 0x22 :: rest) = .ok (s, rest) := by
  refine text_content ?_
  induction s.toList with
  | nil => exact content_quote rest
  | cons c cs ih =>
    have hsplit : Utf8.encode (c :: cs) = Utf8.encode [c] ++ Utf8.encode cs :=
      Utf8.encode_append [c] cs
    rw [List.flatMap_cons, Utf8.encode_append, List.append_assoc, hsplit]
    exact content_escape ih c

theorem encode_quote (s : String) (rest : Octets) : Utf8.encode (quote s) ++ rest =
    0x22 :: (Utf8.encode (s.toList.flatMap escape) ++ 0x22 :: rest) := by
  have hmark : Utf8.encode ['"'] = [0x22] := by decide
  rw [quote, List.cons_append, ← List.singleton_append, Utf8.encode_append,
    Utf8.encode_append, hmark]
  simp

theorem skipBlanks_quote (rest : Octets) : skipBlanks (0x22 :: rest) = 0x22 :: rest := rfl

theorem string_quote (s : String) (rest : Octets) :
    Json.string (Utf8.encode (quote s) ++ rest) = .ok (s, rest) := by
  simp only [encode_quote, Json.string, skipBlanks_quote, if_true, text_escape]

theorem kind_quote (k : Kind) (rest : Octets) :
    Json.kind (Kind.all.map fun k => (k.name, k)) (Utf8.encode (quote k.name) ++ rest) =
      .ok (k, rest) := by
  have hlookup : (Kind.all.map fun k => (k.name, k)).lookup k.name = some k := by
    cases k <;> decide
  simp only [encode_quote, Json.kind, skipBlanks_quote, if_true, named, text_escape, hlookup]

theorem encode_eq (e : Event) : e.encode = 0x7B :: ([0x22] ++ (Utf8.encode "ID".toList ++
    0x22 :: 0x3A :: (Utf8.encode (toString e.id).toList ++
    ([0x2C, 0x22] ++ (Utf8.encode "Direction".toList ++
    0x22 :: 0x3A :: (Utf8.encode (quote e.direction) ++
    ([0x2C, 0x22] ++ (Utf8.encode "Type".toList ++
    0x22 :: 0x3A :: (Utf8.encode (quote e.kind.name) ++ [0x7D]))))))))) := by
  have hid : "\x7b\"ID\":".toList = ['\x7b', '"'] ++ ("ID".toList ++ ['"', ':']) := by decide
  have hdirection : ",\"Direction\":".toList =
      [',', '"'] ++ ("Direction".toList ++ ['"', ':']) := by decide
  have hkind : ",\"Type\":".toList = [',', '"'] ++ ("Type".toList ++ ['"', ':']) := by decide
  have hopen : Utf8.encode ['\x7b', '"'] = [0x7B, 0x22] := by decide
  have hcolon : Utf8.encode ['"', ':'] = [0x22, 0x3A] := by decide
  have hcomma : Utf8.encode [',', '"'] = [0x2C, 0x22] := by decide
  have hclose : Utf8.encode ['\x7d'] = [0x7D] := by decide
  unfold encode chars
  generalize toString e.id = written
  rw [hid, hdirection, hkind]
  simp only [Utf8.encode_append, hopen, hcolon, hcomma, hclose]
  simp only [List.cons_append, List.append_assoc, List.nil_append]

section Members
variable {e : Event} (rest : Octets)

theorem members_id (hmin : minInt ≤ e.id) (hmax : e.id ≤ maxInt) :
    members fields [] true ([0x22] ++ (Utf8.encode "ID".toList ++
      0x22 :: 0x3A :: (Utf8.encode (toString e.id).toList ++ ([0x2C, 0x22] ++ rest)))) =
    members fields [("ID", .id e.id)] false ([0x2C, 0x22] ++ rest) := by
  refine members_field "ID" (fun _ => rfl) (itself_of_all (by decide)) rfl rfl rfl ?_
  change Except.map _ (integer _) = _
  rw [List.cons_append, integer_encode hmin hmax (endsNumber_comma _)]
  rfl

theorem members_direction :
    members fields [("ID", .id e.id)] false ([0x2C, 0x22] ++ (Utf8.encode "Direction".toList ++
      0x22 :: 0x3A :: (Utf8.encode (quote e.direction) ++ rest))) =
    members fields [("ID", .id e.id), ("Direction", .direction e.direction)] false rest := by
  refine members_field "Direction" (fun _ => rfl) (itself_of_all (by decide)) rfl rfl rfl ?_
  change Except.map _ (Json.string _) = _
  rw [string_quote]
  rfl

theorem members_kind :
    members fields [("ID", .id e.id), ("Direction", .direction e.direction)] false
      ([0x2C, 0x22] ++ (Utf8.encode "Type".toList ++
      0x22 :: 0x3A :: (Utf8.encode (quote e.kind.name) ++ rest))) =
    members fields [("ID", .id e.id), ("Direction", .direction e.direction), ("Type", .kind e.kind)]
      false rest := by
  refine members_field "Type" (fun _ => rfl) (itself_of_all (by decide)) rfl rfl rfl ?_
  change Except.map _ (Json.kind _ _) = _
  rw [kind_quote]
  rfl

end Members

theorem decode_encode {e : Event} (hmin : minInt ≤ e.id) (hmax : e.id ≤ maxInt) :
    decode e.encode = .ok e := by
  have hopen : ∀ r, skipBlanks (0x7B :: r) = 0x7B :: r := fun _ => rfl
  have hrecord : record "struct InconsistentEvent" fields e.encode = .ok
      ([("ID", .id e.id), ("Direction", .direction e.direction), ("Type", .kind e.kind)], []) := by
    simp only [encode_eq, record, hopen, if_true, members_id _ hmin hmax,
      members_direction, members_kind, members_end]
    rfl
  have hreader : reader e.encode = .ok (e, []) := by
    rw [reader, read, hrecord]
    rfl
  simp only [decode, document, hreader]
  rfl

/-- An event whose id sixty-four bits do not hold is not read back. -/
theorem decode_refuses {e : Event} (hid : e.id < minInt ∨ maxInt < e.id) :
    ∃ err, decode e.encode = .error err := by
  have hread : ∀ rest, ∃ f, (read Json.integer Part.id)
      (Utf8.encode (toString e.id).toList ++ ([0x2C, 0x22] ++ rest)) = .error f := by
    intro rest
    obtain ⟨f, hf⟩ := integer_refuses hid (endsNumber_comma (0x22 :: rest))
    exact ⟨f, congrArg (Except.map _) hf⟩
  have hmembers : ∀ rest, ∃ f, members fields [] true ([0x22] ++ (Utf8.encode "ID".toList ++
      0x22 :: 0x3A :: (Utf8.encode (toString e.id).toList ++ ([0x2C, 0x22] ++ rest)))) = .error f :=
    fun rest => members_refuses "ID" (fun _ => rfl) (itself_of_all (by decide)) rfl rfl (hread rest)
  have hrecord : ∃ f, record "struct InconsistentEvent" fields e.encode = .error f := by
    rw [encode_eq]
    exact record_refuses _ (hmembers _)
  obtain ⟨f, hf⟩ := hrecord
  have hreader : reader e.encode = .error f := congrArg (Except.map _) hf
  exact ⟨_, by simp only [decode, document, hreader]; rfl⟩

/-- A consumer reads the event, and then the direction that the event names. -/
theorem understand_eq {e : Event} (hmin : minInt ≤ e.id) (hmax : e.id ≤ maxInt) :
    Consumer.understand e.encode = (Direction.ofText e.direction).map fun d => (e, d) := by
  rw [Consumer.understand, decode_encode hmin hmax]
  cases h : Direction.ofText e.direction <;> simp [bind, Except.bind, h, pure,
    Except.pure, Except.map]

theorem understand_encode {e : Event} {d : Direction} (hmin : minInt ≤ e.id) (hmax : e.id ≤ maxInt)
    (hd : e.direction = d.name) : Consumer.understand e.encode = .ok (e, d) := by
  rw [understand_eq hmin hmax, hd, Direction.ofText, Direction.ofName?_name]
  rfl

/-- Whatever its id, an event is understood as itself and in its own direction, if it is understood
at all. -/
theorem eq_of_understand {e e' : Event} {d d' : Direction} (hd : e.direction = d.name)
    (h : Consumer.understand e.encode = .ok (e', d')) : e' = e ∧ d' = d := by
  by_cases hid : minInt ≤ e.id ∧ e.id ≤ maxInt
  · rw [understand_encode hid.1 hid.2 hd] at h
    obtain ⟨rfl, rfl⟩ := Prod.mk.inj (Except.ok.inj h)
    exact ⟨rfl, rfl⟩
  · obtain ⟨err, herr⟩ := decode_refuses (e := e) (by omega)
    rw [Consumer.understand, herr] at h
    cases h

theorem direction_of_understand {e e' : Event} {d d' : Direction} (hd : e.direction = d.name)
    (h : Consumer.understand e.encode = .ok (e', d')) : d' = d := (eq_of_understand hd h).2

/-- What an event can rely on when it is sent. -/
structure ComesBack (e : Event) : Prop where
  decoded : decode e.encode = .ok e
  /-- No other event is written in the same octets. -/
  alone : ∀ e' : Event, minInt ≤ e'.id → e'.id ≤ maxInt → e'.encode = e.encode → e' = e
  /-- Every subscription to the topic gets a message that a consumer reads as the event. -/
  delivered : ∀ (w : World), ∀ s ∈ w.bus.subscriptions, s.topic = w.topic →
    ∃ m, { s with queue := s.queue ++ [m] } ∈ (w.record e).bus.subscriptions ∧
      Consumer.understand m.payload = (Direction.ofText e.direction).map fun d => (e, d)

/-- Whatever the direction says, an event with an id of sixty-four bits comes back from the wire. -/
theorem events_come_back {e : Event} (hmin : minInt ≤ e.id) (hmax : e.id ≤ maxInt) :
    e.ComesBack where
  decoded := decode_encode hmin hmax
  alone := by
    intro e' hmin' hmax' h
    have hdecoded := decode_encode hmin' hmax'
    rw [h, decode_encode hmin hmax] at hdecoded
    exact (Except.ok.inj hdecoded).symm
  delivered := by
    intro w s hs htopic
    refine ⟨⟨e.encode, 0⟩, List.mem_map.2 ⟨s, hs, ?_⟩, understand_eq hmin hmax⟩
    exact if_pos htopic

/-- The least id, and a direction of escapes, controls and characters of every length. -/
theorem least_event_comes_back :
    let e : Event := ⟨minInt, "\"\\/\x00\x1f\t\n\x7fé€𝄞", .baseMissing⟩
    minInt ≤ e.id ∧ e.id ≤ maxInt ∧ e.ComesBack :=
  ⟨by decide, by decide, events_come_back (by decide) (by decide)⟩

end Event
end DualWrite
