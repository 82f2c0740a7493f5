import DualWrite.Proofs.Settings.Printer

/-!
# Printed settings load again

Loaded settings are as they should be, so that a second repair leaves them as they are. Printed as a
document and loaded without any variables they come back, whatever texts they hold, with one
exception: a busy timeout that sixty-four bits hold without a sign, but not with one, is printed and
then refused, and with it the whole document.
-/
namespace DualWrite.Settings

open Toml

section Repair

theorem repairLevel_repairLevel (s : String) :
    repairLevel (repairLevel s).1 = ((repairLevel s).1, []) := by
  have hlevels : ∀ t ∈ levels, repairLevel t = (t, []) := by decide
  refine hlevels _ ?_
  unfold repairLevel
  dsimp only
  split
  · assumption
  · exact (by decide : default.level ∈ levels)

theorem repairPoolSize_repairPoolSize (n : UInt32) :
    repairPoolSize (repairPoolSize n).1 = ((repairPoolSize n).1, []) := by
  by_cases h : n = 0
  · subst h
    rfl
  · have hpositive : repairPoolSize n = (n, []) := if_neg h
    rw [hpositive, hpositive]

theorem repairPattern_name (p : Pattern) : repairPattern p.name = (p.name, []) := by
  cases p <;> rfl

theorem repairPattern_repairPattern (s : String) :
    repairPattern (repairPattern s).1 = ((repairPattern s).1, []) := by
  obtain ⟨p, hp⟩ : ∃ p : Pattern, (repairPattern s).1 = p.name := by
    unfold repairPattern
    split
    · exact ⟨_, rfl⟩
    · exact ⟨.srcOnly, rfl⟩
  rw [hp, repairPattern_name]

theorem repairBatchSize_repairBatchSize (n : Int64) :
    repairBatchSize (repairBatchSize n).1 = ((repairBatchSize n).1, []) := by
  by_cases h : n ≤ 0
  · have hdefault : repairBatchSize n = (default.batchSize, [.badBatch n]) := if_pos h
    rw [hdefault]
    rfl
  · have hpositive : repairBatchSize n = (n, []) := if_neg h
    rw [hpositive, hpositive]

theorem repair_repair (s : Settings) : s.repair.1.repair = (s.repair.1, []) := by
  simp only [repair, repairLevel_repairLevel, repairPoolSize_repairPoolSize,
    repairPattern_repairPattern, repairBatchSize_repairBatchSize, List.append_nil]

theorem load_repaired (document : Option String) (e : Environment) :
    (load document e).1.repair = ((load document e).1, []) := by
  unfold load
  split
  · exact repair_repair _
  · rfl

end Repair

section Layers

/-- The settings name everything that the defaults name. -/
theorem merge_default (s : Settings) : default.toTree.merge s.toTree = s.toTree := rfl

/-- Between the defaults and an empty layer nothing is changed. -/
theorem merge_layers (s : Settings) :
    (default.toTree.merge s.toTree).merge (.table []) = s.toTree :=
  congrArg (Tree.merge · (.table [])) (merge_default s)

theorem layer_empty {e : Environment} (h : ∀ v ∈ e, Environment.path? v.1 = none) :
    e.layer = .table [] := by
  have hadd : ∀ v ∈ e, ∀ t, Environment.add t v.1 v.2 = t := fun v hv t => by
    unfold Environment.add
    rw [h v hv]
  unfold Environment.layer
  clear h
  induction e with
  | nil => rfl
  | cons v e ih =>
    obtain ⟨hv, he⟩ := List.forall_mem_cons.1 hadd
    rw [List.foldl_cons, hv, ih he]

theorem naturalAt_member {t : Tree} {place : Nat} {key : String} {n bits : Nat}
    (h : t.member? place key = some (.integer n)) (hn : n < Nat.pow 2 bits) :
    naturalAt t place key bits = some n := by
  have hrange : (0 : Int) ≤ n ∧ (n : Int) ≤ (Nat.pow 2 bits : Nat) - 1 :=
    ⟨Int.natCast_nonneg n, by omega⟩
  rw [naturalAt, integerAt, h, Option.bind_some, Tree.integer?, if_pos hrange]
  rfl

theorem integerAt_member {t : Tree} {place : Nat} {key : String} {n low high : Int}
    (h : t.member? place key = some (.integer n)) (hn : low ≤ n ∧ n ≤ high) :
    integerAt t place key low high = some n := by
  rw [integerAt, h, Option.bind_some, Tree.integer?, if_pos hn]

theorem ofTree?_toTree (s : Settings) : ofTree? s.toTree = some s := by
  obtain ⟨logging, hlogging, hlevel⟩ : ∃ t, s.toTree.member? 0 "logging" = some t ∧
      textAt t 0 "migrator" = some s.level := ⟨_, rfl, rfl⟩
  obtain ⟨server, hserver, hhost, hport⟩ : ∃ t, s.toTree.member? 1 "server" = some t ∧
      textAt t 0 "host" = some s.host ∧ naturalAt t 1 "port" 16 = some s.port.toNat :=
    ⟨_, rfl, rfl, naturalAt_member rfl s.port.toNat_lt⟩
  obtain ⟨database, hdatabase, hsrc, hdst, hpool, hbusy⟩ : ∃ t,
    s.toTree.member? 2 "database" = some t ∧
      textAt t 0 "src" = some s.src ∧ textAt t 1 "dst" = some s.dst ∧
      naturalAt t 2 "pool_size" 32 = some s.poolSize.toNat ∧
      naturalAt t 3 "busy_timeout_ms" 64 = some s.busyTimeout.toNat :=
    ⟨_, rfl, rfl, rfl, naturalAt_member rfl s.poolSize.toNat_lt,
      naturalAt_member rfl s.busyTimeout.toNat_lt⟩
  obtain ⟨migrator, hmigrator, hpattern, hbatch, htopic, hgroup, hmax⟩ :
      ∃ t, s.toTree.member? 3 "migrator" = some t ∧ textAt t 0 "pattern" = some s.pattern ∧
      integerAt t 1 "batch_size" minInt maxInt = some s.batchSize.toInt ∧
      textAt t 2 "topic" = some s.topic ∧ textAt t 3 "group_id" = some s.group ∧
      naturalAt t 4 "max_redeliveries" 32 = some s.maxRedeliveries.toNat :=
    ⟨_, rfl, rfl, integerAt_member rfl ⟨s.batchSize.le_toInt, s.batchSize.toInt_le⟩, rfl, rfl,
      naturalAt_member rfl s.maxRedeliveries.toNat_lt⟩
  have hstep : ∀ {α β : Type} {o : Option α} {f : α → Option β} {a : α} {b : β},
      o = some a → f a = some b → (o >>= f) = some b := by
    rintro α β _ f a b rfl hf
    exact hf
  have hnumbers : some { s with
      port := UInt16.ofNat s.port.toNat
      poolSize := UInt32.ofNat s.poolSize.toNat
      busyTimeout := UInt64.ofNat s.busyTimeout.toNat
      batchSize := Int64.ofInt s.batchSize.toInt
      maxRedeliveries := UInt32.ofNat s.maxRedeliveries.toNat } = some s := by
    simp only [UInt16.ofNat_toNat, UInt32.ofNat_toNat, UInt64.ofNat_toNat, Int64.ofInt_toInt]
  unfold ofTree?
  exact hstep hlogging <| hstep hserver <| hstep hdatabase <| hstep hmigrator <| hstep hlevel <|
    hstep hhost <| hstep hport <| hstep hsrc <| hstep hdst <| hstep hpool <| hstep hbusy <|
    hstep hpattern <| hstep hbatch <| hstep htopic <| hstep hgroup <| hstep hmax hnumbers

end Layers

section Document

theorem layout_default : Layout (names default.sections) where
  headers := by decide
  keys := by decide
  headersOnce := by decide
  keysOnce := by decide

/-- The busy timeout is the one number that a document may not hold. -/
theorem sections_fit (s : Settings) : (∀ p ∈ s.sections, ∀ q ∈ p.2, q.2.fits = true) ↔
    s.busyTimeout.toNat < Nat.pow 2 63 := by
  have hfits : ∀ n, DualWrite.fits n = true ↔ minInt ≤ n ∧ n ≤ maxInt := fun n => by
    simp [DualWrite.fits]
  have hhalf : Nat.pow 2 63 = 9223372036854775808 := rfl
  have hport := s.port.toNat_lt
  have hpool := s.poolSize.toNat_lt
  have hmax := s.maxRedeliveries.toNat_lt
  have hlow := s.batchSize.le_toInt
  have hhigh := s.batchSize.toInt_lt
  simp only [sections, List.forall_mem_cons, List.not_mem_nil, false_imp_iff,
    implies_true, and_true, true_and, Scalar.fits, hfits, minInt, maxInt]
  omega

theorem documentLayer?_toToml (s : Settings) : documentLayer? (some s.toToml) =
    if s.busyTimeout.toNat < Nat.pow 2 63 then some s.toTree else none := by
  have htable := table_written (show Layout (names s.sections) from layout_default)
  simp only [sections_fit] at htable
  exact htable

end Document

/-- A printed document is loaded as what was printed, or refused. -/
theorem load_toToml {s : Settings} (hs : s.repair = (s, [])) {e : Environment}
    (he : ∀ v ∈ e, Environment.path? v.1 = none) : load (some s.toToml) e =
      if s.busyTimeout.toNat < Nat.pow 2 63 then (s, []) else (default, [.unreadable]) := by
  have hlayer := documentLayer?_toToml s
  by_cases hbusy : s.busyTimeout.toNat < Nat.pow 2 63
  · rw [if_pos hbusy] at hlayer ⊢
    have hmerged : merged? (some s.toToml) e = some s.toTree := by
      rw [merged?, hlayer, layer_empty he]
      exact congrArg some (merge_layers s)
    rw [load, hmerged, Option.bind_some, ofTree?_toTree]
    exact hs
  · rw [if_neg hbusy] at hlayer ⊢
    rw [load, merged?, hlayer]
    rfl

/-- Whatever document and variables settings were loaded from, they are printed as a document that
loads as the same settings, without any complaint, if sixty-four bits with a sign hold the busy
timeout. If they do not, the document is refused, and the defaults take the place of all settings.
The same holds of all settings that need no repair, wherever they come from. -/
theorem printed_settings_load_again (e' : Environment)
    (h : ∀ v ∈ e', Environment.path? v.1 = none) :
    (∀ document e, load (some (load document e).1.toToml) e' =
      if (load document e).1.busyTimeout.toNat < Nat.pow 2 63 then ((load document e).1, [])
      else (default, [.unreadable])) ∧
    ∀ s : Settings, s.repair = (s, []) → load (some s.toToml) e' =
      if s.busyTimeout.toNat < Nat.pow 2 63 then (s, []) else (default, [.unreadable]) := by
  refine ⟨fun document e => ?_, fun s hs => load_toToml hs h⟩
  have hrepaired := load_repaired document e
  exact load_toToml hrepaired h

/-- A host with quotes and an apostrophe, and a topic of two lines. -/
def oddTexts : Settings := { default with host := "it's \"so\"", topic := "two\nlines" }

def oddVariables : Environment :=
  [("MIGRATOR_SERVER__HOST", "it's \"so\""), ("MIGRATOR_MIGRATOR__TOPIC", "two\nlines")]

theorem odd_texts_load_again : (∀ v ∈ [("HOME", "/root")], Environment.path? v.1 = none) ∧
    (load none oddVariables).1 = oddTexts ∧ oddTexts.repair = (oddTexts, []) ∧
    load (some (load none oddVariables).1.toToml) [("HOME", "/root")] =
    ((load none oddVariables).1, []) ∧
    load (some oddTexts.toToml) [("HOME", "/root")] = (oddTexts, []) := by
  have hhome : ∀ v ∈ [("HOME", "/root")], Environment.path? v.1 = none := by decide
  have hloaded : (load none oddVariables).1 = oddTexts := by decide +kernel
  have hrepaired : oddTexts.repair = (oddTexts, []) := by decide +kernel
  have hsmall : oddTexts.busyTimeout.toNat < Nat.pow 2 63 := by decide +kernel
  obtain ⟨hagain, hany⟩ := printed_settings_load_again [("HOME", "/root")] hhome
  refine ⟨hhome, hloaded, hrepaired, (hagain none oddVariables).trans (if_pos ?_), ?_⟩
  · exact hloaded ▸ hsmall
  · exact (hany oddTexts hrepaired).trans (if_pos hsmall)

def longWait : Environment := [("MIGRATOR_DATABASE__BUSY_TIMEOUT_MS", "9223372036854775808")]

theorem long_wait_is_refused : load (some (load none longWait).1.toToml) [] =
    (default, [.unreadable]) ∧ (load none longWait).1 ≠ default := by
  have hbusy : (load none longWait).1.busyTimeout = 9223372036854775808 := by decide +kernel
  constructor
  · refine (load_toToml (load_repaired none longWait) fun _ hv =>
      absurd hv List.not_mem_nil).trans (if_neg ?_)
    rw [hbusy]
    decide +kernel
  · intro hdefault
    rw [hdefault] at hbusy
    exact absurd hbusy (by decide)

end DualWrite.Settings
