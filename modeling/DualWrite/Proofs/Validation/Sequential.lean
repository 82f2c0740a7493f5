import DualWrite.Proofs.Validation.Flight

/-!
# Turns taken step by step

In a scene a scan takes a turn at once. It takes the same turn by a look, a request and an answer,
one right after the other. So whatever can happen in a scene can happen in a flight.
-/
namespace DualWrite
variable {x : Scene} {y : Flight} {side : Side}

/-- A flight with no request under way in which a scene is seen. -/
structure Flight.Shows (y : Flight) (x : Scene) : Prop where
  validation : y.validation = x.validation
  store : y.store = x.world.store
  clock : y.clock = x.world.clock
  cancelled : y.cancelled = x.cancelled
  resting : ∀ side, (y.lane side).stage = .resting

namespace Flight

/-- Look, request and answer, one right after the other, make a turn. -/
theorem exists_turn (h : y.result? = none) (hstage : (y.lane side).stage = .resting) :
    ∃ ms l, y.run ms = { y with lane := Function.update y.lane side l } ∧ l.stage = .resting ∧
      l.scan =
        (((y.lane side).scan.observe y.cancelled y.clock).served y.plan y.source y.clock).1 := by
  have hlook := (y.lane side).look_resting hstage y.cancelled y.clock
  by_cases hrequest : ((y.lane side).scan.observe y.cancelled y.clock).request = .nothing
  · rw [if_pos hrequest] at hlook
    refine ⟨[.step side .look], (y.lane side).look y.cancelled y.clock, move_step h .., ?_, ?_⟩
    · rw [hlook]
    · rw [hlook]
      simp [Scan.served, hrequest, Scan.reply]
  · rw [if_neg hrequest] at hlook
    have hgoes := Scan.isEnded_of_request hrequest
    let looked : Lane := { y.lane side with
      scan := (y.lane side).scan.observe y.cancelled y.clock, stage := .cleared }
    refine ⟨[.step side .look, .step side .ask, .step side (.answer none)],
      (looked.ask y.clock).answer y.plan y.source y.clock none, ?_, rfl, rfl⟩
    have hone : y.move (.step side .look) =
      { y with lane := Function.update y.lane side looked } := by
      rw [move_step h, stepped, hlook]
    have htwo : ({ y with lane := Function.update y.lane side looked } : Flight).move
      (.step side .ask) =
        { y with lane := Function.update y.lane side (looked.ask y.clock) } := by
      rw [move_step (result?_update h hgoes)]
      simp [stepped, Function.update_idem]
    have hthree :
      ({ y with lane := Function.update y.lane side (looked.ask y.clock) } : Flight).move
        (.step side (.answer none)) = { y with
          lane := Function.update y.lane side
            ((looked.ask y.clock).answer y.plan y.source y.clock none) } := by
      rw [move_step (result?_update h hgoes)]
      simp only [stepped, Function.update_self, Function.update_idem]
      rfl
    rw [run_cons, hone, run_cons, htwo, run_cons, hthree, run_nil]

theorem Shows.source (h : y.Shows x) : y.source = x.world.source := by
  funext d
  rw [Flight.source, World.source, h.store]

theorem Shows.result? (h : y.Shows x) : y.result? = x.validation.result? := by
  rw [Flight.result?, h.validation]

/-- Whatever happens in a scene can be seen in a flight. -/
theorem Shows.move (h : y.Shows x) (ht : x.world.tripwires = [])
    (hs : ∀ side, (x.validation.scan side).side = side) (m : DualWrite.Move) :
    ∃ ms, (y.run ms).Shows (x.move m) := by
  cases m with
  | wait ms =>
    refine ⟨[.wait ms], h.validation, h.store, ?_, h.cancelled, h.resting⟩
    exact congrArg (· + ms) h.clock
  | cancel => exact ⟨[.cancel], h.validation, h.store, h.clock, rfl, h.resting⟩
  | write d s =>
    refine ⟨[.write d s], h.validation, ?_, h.clock, h.cancelled, h.resting⟩
    funext d'
    simp only [run_cons, run_nil, Flight.move, Scene.move, World.store_setStore,
      Function.update_apply, h.store]
  | consume n =>
    obtain ⟨_, _, hclock, _⟩ := x.world.stepConsumer_frame n
    refine ⟨[.write .src ((x.world.stepConsumer n).1.store .src),
      .write .dst ((x.world.stepConsumer n).1.store .dst)], h.validation, ?_,
      h.clock.trans hclock.symm, h.cancelled, h.resting⟩
    funext d
    cases d <;> rfl
  | scan side =>
    by_cases hr : x.validation.result?.isSome
    · exact ⟨[], by rwa [run_nil, Scene.move_ended side hr]⟩
    · have hgoes : y.result? = none := h.result?.trans (Option.not_isSome_iff_eq_none.1 hr)
      obtain ⟨ms, l, hrun, hstage, hscan⟩ := exists_turn hgoes (h.resting side)
      obtain ⟨hw, hv, _⟩ := World.stepScan_eq side x.cancelled ht (hs side)
      have hplan : y.plan = x.validation.plan := congrArg Validation.plan h.validation
      have hbefore : (y.lane side).scan = x.validation.scan side := by
        rw [← validation_scan, h.validation]
      rw [hbefore, hplan, h.source, h.cancelled, h.clock] at hscan
      refine ⟨ms, ?_⟩
      rw [hrun, Scene.move, if_neg hr]
      refine ⟨?_, ?_, ?_, h.cancelled, ?_⟩
      · rw [validation_update, h.validation, hscan]
        exact hv.symm
      · exact h.store.trans (congrArg World.store hw).symm
      · exact h.clock.trans (congrArg World.clock hw).symm
      · intro other
        by_cases ho : other = side
        · subst ho
          simpa only [Function.update_self] using hstage
        · simpa only [Function.update_of_ne ho] using h.resting other

theorem shows_start (w : World) (p : Plan) : (start w.store w.clock p).Shows (Scene.start w p) :=
  ⟨rfl, rfl, rfl, rfl, fun _ => rfl⟩

end Flight

/-- No move of a scene lays a tripwire or moves a scan to the other side. -/
theorem Scene.move_own (ht : x.world.tripwires = [])
    (hs : ∀ side, (x.validation.scan side).side = side) (m : DualWrite.Move) :
    (x.move m).world.tripwires = [] ∧ ∀ side, ((x.move m).validation.scan side).side = side := by
  cases m with
  | consume n => exact ⟨(x.world.stepConsumer_frame n).1.trans ht, hs⟩
  | write | wait | cancel => exact ⟨ht, hs⟩
  | scan side =>
    by_cases hr : x.validation.result?.isSome
    · rw [Scene.move_ended side hr]
      exact ⟨ht, hs⟩
    · obtain ⟨es, ns, s, turn, he⟩ :=
        Scene.move_scan side (Option.not_isSome_iff_eq_none.1 hr) ht (hs side)
      have hown : s.side = side := turn.side_eq.trans ((Scan.observe_side ..).trans (hs side))
      rw [he]
      exact ⟨ht, Validation.forall_setScan (P := fun other s => s.side = other) hown
        fun other _ => hs other⟩

/-- Every run of a validation in a moving world can be seen in a flight. -/
theorem Flight.exists_shows {w : World} (ht : w.tripwires = []) (p : Plan)
    (moves : List DualWrite.Move) :
    ∃ ms, ((start w.store w.clock p).run ms).Shows ((Scene.start w p).run moves) := by
  have hall : (∃ ms, ((start w.store w.clock p).run ms).Shows ((Scene.start w p).run moves)) ∧
      ((Scene.start w p).run moves).world.tripwires = [] ∧
      ∀ side, (((Scene.start w p).run moves).validation.scan side).side = side := by
    induction moves using List.reverseRecOn with
    | nil =>
      refine ⟨⟨[], shows_start w p⟩, ht, ?_⟩
      rintro (_ | _) <;> rfl
    | append_singleton moves m ih =>
      obtain ⟨⟨ms, hshows⟩, htrip, hside⟩ := ih
      obtain ⟨ms', hnext⟩ := hshows.move htrip hside m
      rw [Scene.run_concat]
      exact ⟨⟨ms ++ ms', by rwa [run_append]⟩, Scene.move_own htrip hside m⟩
  exact hall.1

end DualWrite
