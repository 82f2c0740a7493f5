import DualWrite.Proofs.Validation.Progress

/-!
# Passes over two tables that stand still

What a pass sends and reports, said through the two tables: the rows and keys that it is offered,
the entities that its look-ups find, and what fails of these.
-/
namespace DualWrite
open Store Scan

theorem map_chunks {α β : Type} (g : α → β) (n : Nat) (xs : List α) :
    chunks n (xs.map g) = (chunks n xs).map (List.map g) := by
  fun_induction chunks n xs with
  | case1 => simp [chunks]
  | case2 x xs ih =>
    rw [List.map_cons, chunks, List.map_cons, List.map_cons, List.map_take, ← List.map_drop, ih]

/-- What joins without a seam may be done piece by piece. -/
theorem flatMap_chunks {α β : Type} {g : List α → List β} (hnil : g [] = [])
    (happend : ∀ xs ys, g (xs ++ ys) = g xs ++ g ys) (n : Nat) (xs : List α) :
    (chunks n xs).flatMap g = g xs := by
  have hall : ∀ parts : List (List α), parts.flatMap g = g parts.flatten := by
    intro parts
    induction parts with
    | nil => exact hnil.symm
    | cons part parts ih => rw [List.flatMap_cons, List.flatten_cons, happend, ih]
  rw [hall, flatten_chunks]

/-- Where all that an element gives rise to is kept or not with it, what is kept may be chosen
first. -/
theorem filter_flatMap_of {α β : Type} {g : α → List β} {q : β → Bool} {q' : α → Bool} {xs : List α}
    (h : ∀ a ∈ xs, ∀ b ∈ g a, q b = q' a) : (xs.flatMap g).filter q = (xs.filter q').flatMap g := by
  induction xs with
  | nil => rfl
  | cons x xs ih =>
    rw [List.flatMap_cons, List.filter_append, ih fun a ha => h a (List.mem_cons_of_mem x ha)]
    by_cases hx : q' x = true
    · have hall : (g x).filter q = g x := List.filter_eq_self.2 fun b hb => by
        rw [h x List.mem_cons_self b hb, hx]
      rw [List.filter_cons_of_pos hx, List.flatMap_cons, hall]
    · have hnone : (g x).filter q = [] := List.filter_eq_nil_iff.2 fun b hb => by
        rw [h x List.mem_cons_self b hb]
        exact hx
      rw [List.filter_cons_of_neg hx, hnone, List.nil_append]

theorem Plan.asked_reverse (p : Plan) : p.asked .reverse = p.base := by
  rw [Plan.asked, Plan.scanned]
  cases p.base <;> rfl

def Plan.pages (p : Plan) (base : List Interactive) (target : List (Int × Int)) : Side → List Page
  | .forward => (chunks p.batch.toNat base).map .rows
  | .reverse => (chunks p.batch.toNat (target.map (·.1))).map .ids

/-- One pass over two tables that stand still: the rows of the base and the keys of the target that
it is offered. -/
structure Standing (w : World) (p : Plan) (base : List Interactive) (target : List (Int × Int)) :
    Prop where
  once : p.interval = 0
  batch : 1 ≤ p.batch
  offersBase : (w.store p.base).Offers p.mode (.start p.mode p.watermark) Table.entity base
  offersTarget : (w.store p.base.other).Offers p.mode (.start p.mode p.watermark) Table.stamp target

theorem Store.Offers.keyed {α : Type} {s : Store} {mode : ScanMode} {c : Cursor}
    {read : Table → Row → Except Fault α} {due : List α} (h : s.Offers mode c read due) :
    s.Keyed := by
  obtain ⟨t, ht, hscan, _⟩ := h
  exact ⟨t, ht, hscan.keyed⟩

section Judging
variable {p : Plan} {s : Store} (hs : s.Keyed)
include hs

theorem Store.Keyed.present (ids : List Int) :
    ∃ found, (Source.ofStore s).present ids = .ok found := by
  obtain ⟨t, ht, hk⟩ := hs
  exact ⟨_, ofStore_present ht hk ids⟩

/-- The ids of a page that a store lacks are reported, unless one of its chunks fails. -/
theorem missing_eq (f : Faults) (n : Nat) (ids : List Int) :
    missing p ((Source.ofStore s).failing f) ids (chunks n ids) [] =
      if (chunks n ids).all (fun c => (f.present c).isNone) then
        (ids.filter fun i => (s.entity? i).isNone).map (p.event .baseMissing)
      else [] := by
  have hflat := flatten_chunks n ids
  generalize chunks n ids = cs at *
  by_cases hall : cs.all (fun c => (f.present c).isNone) = true
  · have hnone : ∀ c ∈ cs, ((Source.ofStore s).failing f).present c =
      (Source.ofStore s).present c := by
      intro c hc
      have := List.all_eq_true.1 hall c hc
      simp only [Source.failing, Option.isNone_iff_eq_none.1 this]
      rfl
    obtain ⟨more, hmore⟩ := exists_mapM_eq_ok fun c hc =>
      (hnone c hc).symm ▸ hs.present c
    have hmem : ∀ i ∈ ids, i ∈ more.flatten ↔ (s.entity? i).isSome := by
      intro i hi
      rw [List.mem_flatten]
      constructor
      · rintro ⟨found, hfound, hin⟩
        obtain ⟨c, hc, hpresent⟩ := exists_of_mapM hmore hfound
        rw [hnone c hc] at hpresent
        exact ((mem_present hs hpresent).1 hin).2
      · intro hsome
        rw [← hflat] at hi
        obtain ⟨c, hc, hin⟩ := List.mem_flatten.1 hi
        obtain ⟨found, hfound, hpresent⟩ := ok_of_mapM hmore hc
        rw [hnone c hc] at hpresent
        exact ⟨found, hfound, (mem_present hs hpresent).2 ⟨hin, hsome⟩⟩
    rw [if_pos hall, missing, hmore]
    change (ids.filter fun i => decide (i ∉ [] ++ more.flatten)).map _ = _
    congr 1
    apply List.filter_congr
    intro i hi
    have hin := hmem i hi
    rw [List.nil_append, Bool.eq_iff_iff, decide_eq_true_eq, hin]
    cases s.entity? i <;> simp
  · rw [if_neg hall, missing]
    rw [List.all_eq_true] at hall
    push Not at hall
    obtain ⟨c, hc, hfails⟩ := hall
    obtain ⟨e, he⟩ := Option.ne_none_iff_exists'.1 (mt Option.isNone_iff_eq_none.2 hfails)
    cases hm : cs.mapM ((Source.ofStore s).failing f).present with
    | error e => rfl
    | ok more =>
      obtain ⟨found, _, hfound⟩ := ok_of_mapM hm hc
      simp only [Source.failing, he] at hfound
      cases hfound

/-- The first chunk of a page that fails is reported. -/
theorem presenceFailures_eq (f : Faults) (store : String) (cs : List (List Int)) :
    presenceFailures ((Source.ofStore s).failing f) store cs =
      ((cs.findSome? f.present).map (.presenceFailed store)).toList := by
  induction cs with
  | nil => rfl
  | cons c cs ih =>
    cases hf : f.present c with
    | some e =>
      have hfails : ((Source.ofStore s).failing f).present c = .error e := by
        simp only [Source.failing, hf]
        rfl
      rw [presenceFailures_failed hfails, List.findSome?_cons, hf]
      rfl
    | none =>
      obtain ⟨found, hfound⟩ := hs.present c
      have hpasses : ((Source.ofStore s).failing f).present c = .ok found := by
        simp only [Source.failing, hf]
        exact hfound
      rw [presenceFailures_cons hpasses, List.findSome?_cons, hf, ih]

end Judging

namespace Standing
variable {w : World} {p : Plan} {base : List Interactive} {target : List (Int × Int)}

theorem course (h : Standing w p base target) (side : Side) :
    Course p w.source side (.start p.mode p.watermark) (p.pages base target side) := by
  cases side with
  | forward => exact .rows (h.offersBase.rows h.batch)
  | reverse =>
    have hpages : p.pages base target .reverse =
        (chunks p.batch.toNat target).map fun ks => .ids (ks.map (·.1)) := by
      rw [Plan.pages, map_chunks, List.map_map]
      rfl
    rw [hpages]
    exact .keys (h.offersTarget.keys h.batch)

theorem left_pages (p : Plan) (base : List Interactive) (target : List (Int × Int)) :
    left (p.pages base target .forward) = base.length ∧
      left (p.pages base target .reverse) = target.length := by
  constructor
  · rw [left, Plan.pages, List.map_map, ← flatten_chunks p.batch.toNat base, List.length_flatten,
      flatten_chunks]
    rfl
  · rw [left, Plan.pages, List.map_map, ← List.length_map (f := (·.1)),
      ← flatten_chunks p.batch.toNat (target.map (·.1)), List.length_flatten, flatten_chunks]
    rfl

variable (f : Faults)

theorem eventsOf_forward : eventsOf f p w.source .forward (p.pages base target .forward) =
    differences p (askedUnder f p w.source .forward) base := by
  rw [eventsOf, Plan.pages, List.flatMap_map]
  exact flatMap_chunks rfl (fun xs ys => List.flatMap_append) _ _

theorem noticesOf_forward : noticesOf f p w.source .forward (p.pages base target .forward) =
    lookupFailures (askedUnder f p w.source .forward) p.base.other.storeName base ++
      f.lost (differences p (askedUnder f p w.source .forward) base) := by
  rw [noticesOf, eventsOf_forward, Plan.pages, List.flatMap_map]
  congr 1
  exact flatMap_chunks rfl (fun xs ys => List.filterMap_append) _ _

/-- The ids that the base lacks, page by page; nothing of a page of which a chunk fails. -/
theorem eventsOf_reverse (h : Standing w p base target) :
    eventsOf f p w.source .reverse (p.pages base target .reverse) =
      (chunks p.batch.toNat (target.map (·.1))).flatMap fun ids =>
        if (chunks chunkSize ids).all (fun c => (f.present c).isNone) then
          (ids.filter fun i => ((w.store p.base).entity? i).isNone).map (p.event .baseMissing)
        else [] := by
  have hasked : askedUnder f p w.source .reverse = (Source.ofStore (w.store p.base)).failing f := by
    rw [askedUnder, p.asked_reverse]
    rfl
  rw [eventsOf, Plan.pages, List.flatMap_map, hasked]
  apply List.flatMap_congr
  intro ids _
  exact missing_eq h.offersBase.keyed f chunkSize ids

theorem noticesOf_reverse (h : Standing w p base target) :
    noticesOf f p w.source .reverse (p.pages base target .reverse) =
      (chunks p.batch.toNat (target.map (·.1))).filterMap (fun ids =>
        ((chunks chunkSize ids).findSome? f.present).map (.presenceFailed p.base.storeName)) ++
      f.lost (eventsOf f p w.source .reverse (p.pages base target .reverse)) := by
  have hasked : askedUnder f p w.source .reverse = (Source.ofStore (w.store p.base)).failing f := by
    rw [askedUnder, p.asked_reverse]
    rfl
  rw [noticesOf, hasked, p.asked_reverse]
  congr 1
  rw [Plan.pages, List.flatMap_map, List.filterMap_eq_flatMap_toList]
  apply List.flatMap_congr
  intro ids _
  exact presenceFailures_eq h.offersBase.keyed f _ _

theorem run (h : Standing w p base target) {turns : List Side}
    (hforward : 4 * base.length < turns.count .forward)
    (hreverse : 4 * target.length < turns.count .reverse) :
    let x := (Scene.start w p).runUnder f turns
    x.validation.result? = some (.ok ()) ∧ (∀ d, x.world.store d = w.store d) ∧
      (∀ side, x.told w side = f.kept (eventsOf f p w.source side (p.pages base target side))) ∧
      ∃ ns, x.world.notices = w.notices ++ ns ∧
        ns.Perm (noticesOf f p w.source .forward (p.pages base target .forward) ++
          noticesOf f p w.source .reverse (p.pages base target .reverse)) := by
  apply Scene.sweep_run h.once h.course
  rintro (_ | _)
  · rw [(left_pages p base target).1]
    exact hforward
  · rw [(left_pages p base target).2]
    exact hreverse

theorem still (h : Standing w p base target) (ht : w.tripwires = []) (turns : List Side) :
    ∀ d, ((Scene.start w p).run (turns.map .scan)).world.store d = w.store d := by
  rw [← Scene.runUnder_none ht]
  obtain ⟨_, hsweep⟩ := Scene.sweep_turns (f := .none) h.once h.course turns
  exact hsweep.store

/-- Where nothing is made to fail, and the target can be read, nothing is reported. -/
theorem noticesOf_none (h : Standing w p base target)
    (hfind : ∀ r ∈ base, ∃ other, (w.source p.base.other).find r.id = .ok other) (side : Side) :
    noticesOf .none p w.source side (p.pages base target side) = [] := by
  cases side with
  | forward =>
    rw [noticesOf_forward, Faults.lost_none, List.append_nil, lookupFailures,
      List.filterMap_eq_nil_iff]
    intro r hr
    obtain ⟨other, hother⟩ := hfind r hr
    have hasked : (askedUnder .none p w.source .forward).find r.id = .ok other := hother
    rw [hasked]
  | reverse =>
    rw [h.noticesOf_reverse, Faults.lost_none, List.append_nil, List.filterMap_eq_nil_iff]
    intro ids _
    have hnone : (chunks chunkSize ids).findSome? Faults.none.present = none :=
      List.findSome?_eq_none_iff.2 fun _ _ => rfl
    rw [hnone, Option.map_none]

end Standing

namespace Store.Holds
variable {w : World} {p : Plan}

/-- Without faults the look-ups of a scan find what the target holds. -/
theorem differences_eq {target : List Interactive} (h : (w.store p.base.other).Holds target)
    (rows : List Interactive) : differences p (askedUnder .none p w.source .forward) rows =
      rows.flatMap fun r => difference p r (target.find? (·.id = r.id)) := by
  apply List.flatMap_congr
  intro r _
  obtain ⟨other, hother⟩ := h.find r.id
  have hfind := find_ok h.keyed hother
  rw [h.entity?_eq] at hfind
  have hsame : other = target.find? (·.id = r.id) :=
    (Option.map_injective (fun _ _ => Except.ok.inj) hfind).symm
  have hasked : (askedUnder .none p w.source .forward).find r.id = .ok other := hother
  rw [hasked, hsame]

end Store.Holds

/-- Where all can be read and nothing fails, a pass ends well, reports nothing and sends what the
two tables differ in, in the order in which it reads them. -/
theorem Standing.clean {w : World} {p : Plan} {base target dueBase dueTarget : List Interactive}
    (h : Standing w p dueBase (dueTarget.map fun e => (e.id, e.uTime))) (ht : w.tripwires = [])
    (hbase : (w.store p.base).Holds base) (htarget : (w.store p.base.other).Holds target)
    {turns : List Side} (hforward : 4 * dueBase.length < turns.count .forward)
    (hreverse : 4 * dueTarget.length < turns.count .reverse) :
    let x := (Scene.start w p).run (turns.map .scan)
    x.validation.result? = some (.ok ()) ∧ (∀ d, x.world.store d = w.store d) ∧
      x.world.notices = w.notices ∧
      x.told w .forward = dueBase.flatMap (fun r => difference p r (target.find? (·.id = r.id))) ∧
      x.told w .reverse = (dueTarget.filter fun t => base.all (·.id ≠ t.id)).map
        fun t => p.event .baseMissing t.id := by
  have habsent : ∀ i, ((w.store p.base).entity? i).isNone = base.all (·.id ≠ i) := by
    intro i
    rw [hbase.entity?_eq, Bool.eq_iff_iff]
    simp
  have hpieces : eventsOf .none p w.source .reverse
      (p.pages dueBase (dueTarget.map fun e => (e.id, e.uTime)) .reverse) =
      (dueTarget.filter fun t => base.all (·.id ≠ t.id)).map fun t =>
        p.event .baseMissing t.id := by
    have hids : (dueTarget.map fun e => (e.id, e.uTime)).map (·.1) = dueTarget.map (·.id) := by
      rw [List.map_map]
      rfl
    have hnone : ∀ cs : List (List Int), cs.all (fun c => (Faults.none.present c).isNone) = true :=
      fun cs => List.all_eq_true.2 fun _ _ => rfl
    rw [h.eventsOf_reverse, hids]
    simp only [hnone, if_true, habsent]
    rw [flatMap_chunks rfl (fun xs ys => by rw [List.filter_append, List.map_append]),
      List.filter_map, List.map_map]
    rfl
  rw [← Scene.runUnder_none ht]
  have hlength : 4 * (dueTarget.map fun e => (e.id, e.uTime)).length < turns.count .reverse := by
    rwa [List.length_map]
  obtain ⟨hok, hstore, htold, ns, hns, hperm⟩ := h.run .none hforward hlength
  refine ⟨hok, hstore, ?_, ?_, ?_⟩
  · have hfind : ∀ r ∈ dueBase, ∃ other, (w.source p.base.other).find r.id = .ok other :=
      fun r _ => htarget.find r.id
    rw [h.noticesOf_none hfind, h.noticesOf_none hfind] at hperm
    rw [hns, hperm.eq_nil, List.append_nil]
  · rw [htold, Faults.kept_none, eventsOf_forward, htarget.differences_eq]
  · rw [htold, Faults.kept_none, hpieces]

end DualWrite
