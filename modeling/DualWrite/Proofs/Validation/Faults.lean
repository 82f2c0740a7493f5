import DualWrite.Proofs.Validation.Scene

/-!
# Turns in which look-ups and publications fail

Which requests fail is given from outside, as a function of the request: a scan of tables that stand
still makes none of them twice. A turn under faults is the turn of the program with these answers in
place of the others, and without faults it is the turn of the program.
-/
namespace DualWrite

/-- What fails of the look-ups of one row, of the look-ups of many ids, and of the publications. -/
structure Faults where
  find : Int → Option Error
  present : List Int → Option Error
  publish : Event → Option Error

namespace Faults

def none : Faults := ⟨fun _ => .none, fun _ => .none, fun _ => .none⟩

def kept (f : Faults) (es : List Event) : List Event := es.filter fun e => (f.publish e).isNone

def lost (f : Faults) (es : List Event) : List Notice :=
  es.filterMap fun e => (f.publish e).map (.publishFailed e)

variable (f : Faults)

@[simp] theorem kept_nil : f.kept [] = [] := rfl

@[simp] theorem lost_nil : f.lost [] = [] := rfl

@[simp] theorem kept_append (es es' : List Event) : f.kept (es ++ es') = f.kept es ++ f.kept es' :=
  List.filter_append ..

@[simp] theorem lost_append (es es' : List Event) : f.lost (es ++ es') = f.lost es ++ f.lost es' :=
  List.filterMap_append

variable {f}

theorem kept_cons_failed {e : Event} {err : Error} (h : f.publish e = some err) (es : List Event) :
    f.kept (e :: es) = f.kept es := by
  simp [kept, h]

theorem lost_cons_failed {e : Event} {err : Error} (h : f.publish e = some err) (es : List Event) :
    f.lost (e :: es) = .publishFailed e err :: f.lost es := by
  simp [lost, h]

theorem lost_of_kept {es : List Event} (h : f.kept es = es) : f.lost es = [] := by
  rw [lost, List.filterMap_eq_nil_iff]
  intro e he
  rw [← h] at he
  have hkept := (List.mem_filter.1 he).2
  rw [Option.isNone_iff_eq_none.1 hkept]
  rfl

theorem kept_none (es : List Event) : none.kept es = es := by simp [kept, none]

theorem lost_none (es : List Event) : none.lost es = [] := by simp [lost, none]

end Faults

def Source.failing (s : Source) (f : Faults) : Source :=
  { s with
    find := fun id => (f.find id).elim (s.find id) .error
    present := fun ids => (f.present ids).elim (s.present ids) .error }

namespace Scan

def servedUnder (f : Faults) (p : Plan) (source : Direction → Source) (now : Nat) (s : Scan) :
    Scan × List Notice :=
  match s.request with
  | .publish e => s.onPublish ((f.publish e).elim (.ok ()) .error)
  | _ => s.served p (fun d => (source d).failing f) now

/-- A turn under faults is one with the answers of the failing sources, or a publication that
fails. -/
inductive TurnUnder (f : Faults) (p : Plan) (source : Direction → Source) (now : Nat) :
    Scan → List Event → List Notice → Scan → Prop where
  | turn {s es ns s'} : Turn p (fun d => (source d).failing f) now s es ns s' → f.kept es = es →
      TurnUnder f p source now s es ns s'
  | publishFailed {s e es err} : s.phase = .publishing (e :: es) → f.publish e = some err →
      TurnUnder f p source now s [] [.publishFailed e err] (s.publish es)

/-- Whatever a scan does under faults is one of these turns. -/
theorem turnUnder_served (f : Faults) (p : Plan) (source : Direction → Source)
    (now : Nat) (s : Scan) :
    TurnUnder f p source now s (f.kept s.sent) (s.servedUnder f p source now).2
      (s.servedUnder f p source now).1 := by
  have hturn := turn_served p (fun d => (source d).failing f) now s
  rcases hr : s.request with c | c | i | is | e | _
  case publish =>
    obtain ⟨es, hphase⟩ : ∃ es, s.phase = .publishing (e :: es) := by
      unfold request at hr
      split at hr <;> cases hr
      exact ⟨_, by assumption⟩
    have hsent : s.sent = [e] := by rw [sent, hr]
    cases hf : f.publish e with
    | none =>
      have hkept : f.kept s.sent = s.sent := by simp [hsent, Faults.kept, hf]
      have hserved : s.servedUnder f p source now =
        s.served p (fun d => (source d).failing f) now := by
        simp only [servedUnder, served, hr, hf]
        rfl
      rw [hkept, hserved]
      exact .turn hturn hkept
    | some err =>
      have hkept : f.kept s.sent = [] := by simp [hsent, Faults.kept, hf]
      have hserved : s.servedUnder f p source now = (s.publish es, [.publishFailed e err]) := by
        simp only [servedUnder, hr, hf, onPublish, hphase]
        rfl
      rw [hkept, hserved]
      exact .publishFailed hphase hf
  all_goals
    have hsent : s.sent = [] := by rw [sent, hr]
    have hserved : s.servedUnder f p source now =
      s.served p (fun d => (source d).failing f) now := by
      rw [servedUnder, hr]
    rw [hserved, hsent]
    rw [hsent] at hturn
    exact .turn hturn rfl

theorem TurnUnder.side_eq {f : Faults} {p : Plan} {source : Direction → Source} {now : Nat}
    {s s' : Scan} {es : List Event} {ns : List Notice} (h : TurnUnder f p source now s es ns s') :
    s'.side = s.side := by
  cases h with
  | turn h => exact h.side_eq
  | publishFailed => exact publish_side ..

theorem servedUnder_none (p : Plan) (source : Direction → Source) (now : Nat) (s : Scan) :
    s.servedUnder .none p source now = s.served p source now := by
  cases hr : s.request <;> simp only [servedUnder, served, hr] <;> rfl

end Scan

namespace Scene

def turnUnder (f : Faults) (x : Scene) (side : Side) : Scene :=
  if x.validation.result?.isSome then x
  else
    let s := x.observed side
    let after := s.servedUnder f x.validation.plan x.world.source x.world.clock
    { x with
      world := (x.world.emit (f.kept s.sent)).report after.2
      validation := x.validation.setScan after.1 side }

def runUnder (f : Faults) (x : Scene) (turns : List Side) : Scene := turns.foldl (turnUnder f) x

theorem runUnder_concat (f : Faults) (x : Scene) (turns : List Side) (side : Side) :
    x.runUnder f (turns ++ [side]) = (x.runUnder f turns).turnUnder f side := by
  simp [runUnder]

variable {x : Scene} {side : Side}

theorem turnUnder_ended (f : Faults) (hr : x.validation.result?.isSome) : x.turnUnder f side = x :=
  if_pos hr

theorem turnUnder_eq (f : Faults) (hr : x.validation.result? = none) :
    x.turnUnder f side =
      let after := (x.observed side).servedUnder f x.validation.plan x.world.source x.world.clock
      { x with
        world := (x.world.emit (f.kept (x.observed side).sent)).report after.2
        validation := x.validation.setScan after.1 side } :=
  if_neg (by simp [hr])

/-- Without faults a turn is the turn of the program. -/
theorem turnUnder_none (ht : x.world.tripwires = []) (hs : (x.validation.scan side).side = side) :
    x.turnUnder .none side = x.move (.scan side) := by
  by_cases hr : x.validation.result?.isSome
  · rw [turnUnder_ended _ hr, move_ended side hr]
  · obtain ⟨hw, hv, _⟩ := World.stepScan_eq side x.cancelled ht hs
    rw [turnUnder_eq _ (by simpa using hr), Scan.servedUnder_none, Faults.kept_none]
    simp [move, hr, hw, hv, observed]

/-- A publication that a tripwire fails is a turn under that fault, after which the tripwire is
gone. -/
theorem turnUnder_tripwire {f : Faults} {e : Event} {t : Tripwire} {message : String}
    (hr : x.validation.result? = none) (he : (x.observed side).request = .publish e)
    (ht : x.world.tripwires.find? (fun t => t.kind = e.kind && t.id = e.id) = some t)
    (hact : t.act = .fail message) (hf : f.publish e = some (.other message)) :
    x.move (.scan side) =
      { x.turnUnder f side with
        world := { (x.turnUnder f side).world with tripwires := x.world.tripwires.erase t } } := by
  have he' : ((x.validation.scan side).observe x.cancelled x.world.clock).request = .publish e := he
  have hsent : f.kept (x.observed side).sent = [] := by simp [Scan.sent, he, Faults.kept, hf]
  have hpublish : x.world.publish e =
      ({ x.world with tripwires := x.world.tripwires.erase t }, .failed (.other message)) := by
    simp only [World.publish, ht, hact]
  rw [turnUnder_eq _ hr, hsent, World.emit_nil]
  simp only [move, hr, World.stepScan, he', hpublish, Scan.servedUnder, he, hf,
    Validation.setScan_setScan]
  rfl

theorem turnUnder_turn (f : Faults) (side : Side) (hr : x.validation.result? = none) : ∃ es ns s,
    Scan.TurnUnder f x.validation.plan x.world.source x.world.clock (x.observed side) es ns s ∧
      x.turnUnder f side = { x with
        world := (x.world.emit es).report ns, validation := x.validation.setScan s side } :=
  ⟨_, _, _, Scan.turnUnder_served f _ _ _ (x.observed side), turnUnder_eq f hr⟩

theorem runUnder_none {w : World} (ht : w.tripwires = []) (p : Plan) (turns : List Side) :
    (start w p).runUnder .none turns = (start w p).run (turns.map .scan) := by
  have hall : (start w p).runUnder .none turns = (start w p).run (turns.map .scan) ∧
      ((start w p).runUnder .none turns).world.tripwires = [] ∧
      ∀ side, (((start w p).runUnder .none turns).validation.scan side).side = side := by
    induction turns using List.reverseRecOn with
    | nil =>
      refine ⟨rfl, ht, ?_⟩
      rintro (_ | _) <;> rfl
    | append_singleton turns side ih =>
      obtain ⟨hsame, htrip, hside⟩ := ih
      rw [runUnder_concat, List.map_append, List.map_singleton, run_concat, ← hsame]
      refine ⟨turnUnder_none htrip (hside side), ?_⟩
      by_cases hr : ((start w p).runUnder .none turns).validation.result?.isSome
      · rw [turnUnder_ended _ hr]
        exact ⟨htrip, hside⟩
      · obtain ⟨es, ns, s, turn, he⟩ := turnUnder_turn .none side
          (Option.not_isSome_iff_eq_none.1 hr)
        have hown : s.side = side := turn.side_eq.trans ((Scan.observe_side ..).trans (hside side))
        rw [he]
        exact ⟨htrip, Validation.forall_setScan (P := fun other s => s.side = other) hown
          fun other _ => hside other⟩
  exact hall.1

end Scene
end DualWrite
