import DualWrite.Proofs.Validation.FullScan

/-!
# Full validation under live traffic

Between any two turns of a full validation rows may come, change and go in both stores. What stands
still meanwhile is judged as if nothing else moved.
-/
namespace DualWrite
open Scene

/-- A full validation that ends well with nothing failed has sent of every id above the least whose
two rows stood still exactly what they differ in, and each side has reported its ids in ascending
order, whatever was written between its turns. -/
theorem full_validation_under_traffic {w : World} {p : Plan} {n : Int} {moves : List Move}
    (hfull : p.mode = .full) (honce : p.interval = 0) (htripwires : w.tripwires = [])
    (hkeyed : ∀ d, (w.store d).Keyed) (hwritten : ∀ d s, .write d s ∈ moves → s.Keyed)
    (huncancelled : .cancel ∉ moves)
    (hnotices : ((start w (p.withBatch n)).run moves).world.notices = w.notices)
    (hok : ((start w (p.withBatch n)).run moves).validation.result? = some (.ok ())) :
    let at' (pre : List Move) := (start w (p.withBatch n)).run pre
    (∀ i, minInt < i → ∀ base target : View,
      (∀ pre, pre <+: moves → ((at' pre).world.store p.base).entity? i = base ∧
        ((at' pre).world.store p.base.other).entity? i = target) →
      ((at' moves).news w).filter (·.id = i) = p.verdict i base target) ∧
    ∀ side, (((at' moves).told w side).map (·.id)).Pairwise (· < ·) := by
  intro at'
  have h : FullPass w (p.withBatch n) moves :=
    ⟨hfull, honce, Int.le_max_right _ _, htripwires, hkeyed, huncancelled, hwritten⟩
  refine ⟨?_, h.ascending⟩
  intro i hi base target hstill
  obtain ⟨pre, hpre, hsent⟩ := h.survey hnotices hok hi fun pre hpre => (hstill pre hpre).1
  rw [hsent]
  exact congrArg (p.verdict i base) (hstill pre hpre).2

theorem run_write (w : World) (p : Plan) (d : Direction) (s : Store) (ms : List Move) :
    (start w p).run (.write d s :: ms) = (start (w.setStore d s) p).run ms := rfl

theorem full_validation_while_a_row_goes :
    let gone := Store.ofEntities "dst" [.plain 2 0]
    let w := World.ofStores (.ofEntities "src" [.plain 1 0])
      (.ofEntities "dst" [.plain 2 0, .plain 4 0])
    let turns := List.replicate 5 Side.forward ++ List.replicate 5 .reverse
    let moves := Move.write .dst gone :: turns.map .scan
    let x := (start w ((Plan.whole .src).withBatch 0)).run moves
    (x.news w).filter (·.id = 1) = [⟨1, "SRC", .targetMissing⟩] ∧
      ∀ side, ((x.told w side).map (·.id)).Pairwise (· < ·) := by
  intro gone w turns moves x
  have hsrc : Store.Holds (.ofEntities "src" [.plain 1 0]) [.plain 1 0] :=
    Store.holds_ofEntities _ (by decide)
  have hdst : Store.Holds (.ofEntities "dst" [.plain 2 0, .plain 4 0]) [.plain 2 0, .plain 4 0] :=
    Store.holds_ofEntities _ (by decide)
  have hgone : gone.Holds [.plain 2 0] := Store.holds_ofEntities _ (by decide)
  have hpass : StillPass (w.setStore .dst gone) ((Plan.whole .src).withBatch 0) [.plain 1 0]
      [.plain 2 0] turns :=
    ⟨rfl, rfl, by decide, rfl, hsrc, hgone, by decide, by decide⟩
  obtain ⟨hstore, hnotices, hok⟩ := hpass.run
  rw [← run_write] at hnotices hok
  have hkeyed : ∀ d, (w.store d).Keyed := by
    rintro (_ | _)
    · exact hsrc.keyed
    · exact hdst.keyed
  have hwritten : ∀ d s, .write d s ∈ moves → s.Keyed := by
    intro d s hs
    rcases List.mem_cons.1 hs with he | hs
    · cases he
      exact hgone.keyed
    · simp at hs
  obtain ⟨hsent, hascending⟩ :=
    full_validation_under_traffic (p := .whole .src) (n := 0) rfl rfl rfl
    hkeyed hwritten (by simp [moves]) hnotices hok
  refine ⟨(hsent 1 (by decide) (some (.ok (.plain 1 0))) none ?_).trans (by decide), hascending⟩
  intro pre hpre
  cases pre with
  | nil => exact ⟨hsrc.entity?_eq 1, hdst.entity?_eq 1⟩
  | cons m pre =>
    obtain ⟨rfl, hrest⟩ := List.cons_prefix_cons.1 hpre
    have hsame := hstore pre hrest
    exact ⟨(congrArg (Store.entity? · 1) (hsame .src)).trans (hsrc.entity?_eq 1),
      (congrArg (Store.entity? · 1) (hsame .dst)).trans (hgone.entity?_eq 1)⟩

end DualWrite
