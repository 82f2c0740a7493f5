import DualWrite.Proofs.Validation.Ascent

/-!
# What a scan goes by

A scan holds rows, ids and events. Each of them has its ground in an answer that the scan got: a row
was on a page of the base, an id on a page of the target, and an event says what the other store
answered about such a row or id. This holds in every mode and whatever the stores do between two
requests.
-/
namespace DualWrite

/-- What the answers that a scan got bear out. -/
structure Evidence where
  /-- A row that the base held. -/
  row : Interactive → Prop
  /-- An id that the target held. -/
  key : Int → Prop
  /-- How base and target differ under an id. -/
  event : Event.Kind → Int → Prop

namespace Evidence

structure Grows (a b : Evidence) : Prop where
  row : ∀ {r}, a.row r → b.row r
  key : ∀ {i}, a.key i → b.key i
  event : ∀ {k i}, a.event k i → b.event k i

/-- What the answer to the next request of a scan adds. -/
structure Learns (p : Plan) (source : Direction → Source) (s : Scan) (a b : Evidence) : Prop
    extends Grows a b where
  page : ∀ {rows r}, s.side = .forward → s.request = .page s.cursor →
    (source p.base).page p.mode p.batch s.cursor = .ok rows → r ∈ rows → b.row r
  keys : ∀ {ks i}, s.side = .reverse → s.request = .keys s.cursor →
    (source p.base.other).keys p.mode p.batch s.cursor = .ok ks → i ∈ ks.map (·.1) → b.key i
  missing : ∀ {r}, s.side = .forward → a.row r → s.request = .find r.id →
    (source p.base.other).find r.id = .ok none → b.event .targetMissing r.id
  unequal : ∀ {r other}, s.side = .forward → a.row r → s.request = .find r.id →
    (source p.base.other).find r.id = .ok (some other) → r ≠ other → b.event .unequal r.id
  stray : ∀ {chunk there i}, s.side = .reverse → a.key i → s.request = .present chunk →
    (source p.base).present chunk = .ok there → i ∈ chunk → i ∉ there → b.event .baseMissing i

end Evidence

namespace Scan
variable {a b : Evidence}

/-- A scan that holds nothing but what is borne out. -/
structure Grounded (a : Evidence) (s : Scan) : Prop where
  rows : ∀ r ∈ s.toFind, s.side = .forward ∧ a.row r
  found : ∀ e ∈ s.found, a.event e.kind e.id
  /-- An id of the page is still to be looked up, or it is there, or it is known to be missing. -/
  ids : ∀ {ids chunks there}, s.phase = .checking ids chunks there → s.side = .reverse ∧
    ∀ i ∈ ids, a.key i ∧ (i ∈ chunks.flatten ∨ i ∈ there ∨ a.event .baseMissing i)

theorem request_of_mem_sent {s : Scan} {e : Event} (h : e ∈ s.sent) :
    s.request = .publish e ∧ s.sent = [e] := by
  rw [sent] at h ⊢
  split at h
  · next hr =>
    obtain rfl := List.mem_singleton.1 h
    exact ⟨hr, rfl⟩
  · cases h

def isResting (s : Scan) : Bool :=
  match s.phase with
  | .ready | .pausing _ | .ended _ => true
  | .comparing _ _ | .checking _ _ _ | .publishing _ => false

variable {s : Scan}

theorem Grounded.of_isResting (h : s.isResting) : s.Grounded a := by
  rcases s with ⟨side, cursor, failures, phase⟩
  cases phase with
  | ready | pausing | ended => exact ⟨nofun, nofun, nofun⟩
  | comparing | checking | publishing => cases h

theorem drained_isResting (p : Plan) (now : Nat) (s : Scan) : (s.drained p now).isResting := by
  rw [drained]
  split <;> rfl

theorem backOff_isResting (p : Plan) (now : Nat) (s : Scan) (e : Error) :
    (s.backOff p now e).1.isResting := by
  simp only [backOff]
  split <;> rfl

theorem Grounded.mono (hs : s.Grounded a) (h : a.Grows b) : s.Grounded b where
  rows := fun r hr => (hs.rows r hr).imp_right h.row
  found := fun e he => h.event (hs.found e he)
  ids := fun hphase => (hs.ids hphase).imp_right fun hall i hi =>
    (hall i hi).imp h.key (Or.imp_right (Or.imp_right h.event))

theorem Grounded.observe (hs : s.Grounded a) (cancelled : Bool) (now : Nat) :
    (s.observe cancelled now).Grounded a := by
  rw [Scan.observe]
  split
  · split
    · exact .of_isResting rfl
    · exact hs
  · split
    · exact .of_isResting rfl
    · split
      · exact .of_isResting rfl
      · exact hs
  · exact hs

theorem grounded_publish {es : List Event} (h : ∀ e ∈ es, a.event e.kind e.id) :
    (s.publish es).Grounded a := by
  refine ⟨?_, ?_, ?_⟩
  · rw [publish_toFind]
    exact nofun
  · rwa [publish_found]
  · intro ids chunks there hphase
    simp only [publish] at hphase
    split at hphase <;> cases hphase

theorem grounded_compared {rows : List Interactive} {es : List Event}
    (hrows : ∀ r ∈ rows, s.side = .forward ∧ a.row r) (hes : ∀ e ∈ es, a.event e.kind e.id) :
    (s.compared rows es).Grounded a := by
  refine ⟨?_, ?_, ?_⟩
  · rwa [compared_toFind, compared_side]
  · rwa [compared_found]
  · intro ids chunks there hphase
    simp only [compared, publish] at hphase
    split at hphase
    · split at hphase <;> cases hphase
    · cases hphase

theorem grounded_checked {p : Plan} {ids there : List Int} {chunks : List (List Int)}
    (hside : s.side = .reverse)
    (hids : ∀ i ∈ ids, a.key i ∧ (i ∈ chunks.flatten ∨ i ∈ there ∨ a.event .baseMissing i)) :
    (s.checked p ids chunks there).Grounded a := by
  rw [checked]
  split
  · next hnone =>
    subst hnone
    refine grounded_publish fun e he => ?_
    obtain ⟨i, hi, rfl⟩ := List.mem_map.1 he
    obtain ⟨hi, hnot⟩ := List.mem_filter.1 hi
    obtain ⟨_, hleft | hthere | hmissing⟩ := hids i hi
    · exact absurd hleft List.not_mem_nil
    · exact absurd hthere (of_decide_eq_true hnot)
    · exact hmissing
  · refine ⟨List.forall_mem_nil _, List.forall_mem_nil _, ?_⟩
    rintro _ _ _ ⟨⟩
    exact ⟨hside, hids⟩

variable {p : Plan} {source : Direction → Source} {now : Nat} {s' : Scan} {es : List Event}
  {ns : List Notice}

/-- A turn sends what was found, and nothing comes into the scan's hands but what its answer bears
out. -/
theorem Grounded.turn (hs : s.Grounded a) (hl : Evidence.Learns p source s a b)
    (ht : Turn p source now s es ns s') : (∀ e ∈ es, e ∈ s.found) ∧ s'.Grounded b := by
  have hkept := hs.mono hl.toGrows
  cases ht with
  | idle => exact ⟨List.forall_mem_nil _, hkept⟩
  | page hside hphase hpage hlast =>
    refine ⟨List.forall_mem_nil _, fun r hr => ⟨hside, ?_⟩, List.forall_mem_nil _, ?_⟩
    · exact hl.page hside (by simp [request, hside, hphase]) hpage hr
    · rintro _ _ _ ⟨⟩
  | @keys ks _ hside hphase hkeys hlast =>
    refine ⟨List.forall_mem_nil _, List.forall_mem_nil _, List.forall_mem_nil _, ?_⟩
    rintro _ _ _ ⟨⟩
    refine ⟨hside, fun i hi => ⟨hl.keys hside (by simp [request, hside, hphase]) hkeys hi, .inl ?_⟩⟩
    rwa [flatten_chunks]
  | pageDrained | keysDrained =>
    exact ⟨List.forall_mem_nil _, .of_isResting (drained_isResting _ _ _)⟩
  | pageFailed | keysFailed =>
    exact ⟨List.forall_mem_nil _, .of_isResting (backOff_isResting _ _ _ _)⟩
  | @find row rows found other hphase hfind =>
    have hrequest : s.request = .find row.id := by simp [request, hphase]
    have hrows : ∀ r ∈ row :: rows, s.side = .forward ∧ a.row r := by
      simpa [toFind, hphase] using hs.rows
    obtain ⟨hside, hrow⟩ := hrows row List.mem_cons_self
    rw [Plan.asked, hside] at hfind
    refine ⟨List.forall_mem_nil _, grounded_compared (fun r hr => ?_) fun e he => ?_⟩
    · exact (hrows r (List.mem_cons_of_mem _ hr)).imp_right hl.row
    · rcases List.mem_append.1 he with he | he
      · exact hkept.found e (by simpa [Scan.found, hphase] using he)
      · cases other with
        | none =>
          obtain rfl := List.mem_singleton.1 he
          exact hl.missing hside hrow hrequest hfind
        | some other =>
          rw [difference] at he
          split at he
          · cases he
          · next hne =>
            obtain rfl := List.mem_singleton.1 he
            exact hl.unequal hside hrow hrequest hfind hne
  | @findFailed row rows found e hphase _ =>
    refine ⟨List.forall_mem_nil _, grounded_compared (fun r hr => ?_) fun e he => ?_⟩
    · exact hkept.rows r (by simp [toFind, hphase, hr])
    · exact hkept.found e (by simpa [Scan.found, hphase] using he)
  | @present ids chunk chunks there more hphase hpresent =>
    have hrequest : s.request = .present chunk := by simp [request, hphase]
    obtain ⟨hside, hids⟩ := hs.ids hphase
    rw [Plan.asked, hside] at hpresent
    refine ⟨List.forall_mem_nil _, grounded_checked hside fun i hi => ?_⟩
    obtain ⟨hkey, hwhere⟩ := hids i hi
    refine ⟨hl.key hkey, ?_⟩
    rcases hwhere with hleft | hthere | hmissing
    · rcases List.mem_append.1 hleft with hchunk | hleft
      · by_cases hmore : i ∈ more
        · exact .inr (.inl (List.mem_append_right _ hmore))
        · refine .inr (.inr (hl.stray hside hkey hrequest ?_ hchunk hmore))
          simpa [Plan.scanned] using hpresent
      · exact .inl hleft
    · exact .inr (.inl (List.mem_append_left _ hthere))
    · exact .inr (.inr (hl.event hmissing))
  | presentFailed => exact ⟨List.forall_mem_nil _, grounded_publish (List.forall_mem_nil _)⟩
  | @publish e es hphase =>
    have hfound : s.found = e :: es := by simp [Scan.found, hphase]
    refine ⟨?_, grounded_publish fun e' he' => ?_⟩
    · rw [hfound]
      simp
    · exact hkept.found e' (hfound ▸ List.mem_cons_of_mem _ he')

end Scan
end DualWrite
