import DualWrite.Proofs.Validation.Ascent

/-!
# The direction that events name

Whatever happens to a validation, each event that it sends names the store that it was started to
take as right.
-/
namespace DualWrite

def Names (d : Direction) (es : List Event) : Prop := ∀ e ∈ es, e.direction = d.name

theorem names_nil (d : Direction) : Names d [] := fun _ he => absurd he List.not_mem_nil

namespace Scan
variable {p : Plan} {source : Direction → Source} {now : Nat} {s s' : Scan} {es : List Event}
  {ns : List Notice}

theorem observe_found (s : Scan) (cancelled : Bool) (now : Nat) :
    (s.observe cancelled now).found = s.found ∨ (s.observe cancelled now).found = [] := by
  unfold observe; repeat' split
  all_goals first | exact .inl rfl | exact .inr rfl

/-- What a scan sends and what it then has in hand is named as what it had in hand. -/
theorem Turn.names (h : Turn p source now s es ns s') (hs : Names p.label s.found) :
    Names p.label (es ++ s'.found) := by
  cases h with
  | idle => exact hs
  | page | keys => exact names_nil _
  | pageDrained | keysDrained =>
    rw [(drained_hand _).1]
    exact names_nil _
  | pageFailed | keysFailed =>
    rw [(backOff_hand _ _).1]
    exact names_nil _
  | find hphase =>
    rw [found, hphase] at hs
    rw [List.nil_append, compared_found]
    intro e he
    rcases List.mem_append.1 he with he | he
    · exact hs e he
    · rw [(mem_difference he).1]
      rfl
  | findFailed hphase =>
    rw [found, hphase] at hs
    rwa [List.nil_append, compared_found]
  | present hphase =>
    rw [List.nil_append, checked_found]
    split
    · intro e he
      obtain ⟨i, _, rfl⟩ := List.mem_map.1 he
      rfl
    · exact names_nil _
  | presentFailed =>
    rw [List.nil_append, publish_found]
    exact names_nil _
  | publish hphase =>
    rw [found, hphase] at hs
    rwa [publish_found]

end Scan

/-- A validation whose events, sent or not, name the store that it takes as right. -/
structure Validation.Labelled (v : Validation) : Prop where
  label : v.plan.label = v.plan.base
  side : ∀ side, (v.scan side).side = side
  found : ∀ side, Names v.plan.base (v.scan side).found

theorem Validation.labelled_start {p : Plan} (h : p.label = p.base) :
    (Validation.start p).Labelled where
  label := h
  side := by rintro (_ | _) <;> rfl
  found := by rintro (_ | _) <;> exact names_nil _

/-- A turn of a scan sends events with the name of the validation's base only. -/
theorem Validation.Labelled.turn {v : Validation} (h : v.Labelled) {source : Direction → Source}
    {now : Nat} {side : Side} {cancelled : Bool} {s : Scan} {es : List Event} {ns : List Notice}
    (turn : Scan.Turn v.plan source now ((v.scan side).observe cancelled now) es ns s) :
    (v.setScan s side).Labelled ∧ Names v.plan.base es := by
  have hobserved : Names v.plan.label ((v.scan side).observe cancelled now).found := by
    rw [h.label]
    rcases (v.scan side).observe_found cancelled now with hsame | hnone
    · rw [hsame]
      exact h.found side
    · rw [hnone]
      exact names_nil _
  have hnames := turn.names hobserved
  have hplan : (v.setScan s side).plan = v.plan := v.setScan_plan s side
  rw [h.label] at hnames
  refine ⟨⟨?_, ?_, ?_⟩, fun e he => hnames e (List.mem_append_left _ he)⟩
  · rw [hplan]
    exact h.label
  · exact Validation.forall_setScan (P := fun side s => s.side = side)
      (turn.side_eq.trans ((Scan.observe_side ..).trans (h.side side))) fun other _ => h.side other
  · rw [hplan]
    exact Validation.forall_setScan (P := fun _ s => Names v.plan.base s.found)
      (fun e he => hnames e (List.mem_append_right _ he)) fun other _ => h.found other

end DualWrite
