import DualWrite.Proofs.Settings.Orderly
import DualWrite.Proofs.Settings.RoundTrip

/-!
# Loaded settings and the layers they come from

Whatever the document and the variables hold, loaded settings can be used. If settings can be made
of the merged layers, each value is that of the highest layer that sets it, and only values that
cannot be used give way to their defaults; if none can be made, all of them are the defaults.
-/
namespace DualWrite.Settings

namespace Tree

/-- What stands under a key of a section, or at its place where a list stands for a table. -/
def setting? (t : Tree) (i : Nat) (name : String) (j : Nat) (key : String) : Option Tree :=
  (t.member? i name).bind fun part => part.member? j key

theorem scalar_of_merge {low high : Tree} {v : Scalar} (h : merge low high = v.toTree) :
    high = v.toTree := by
  cases high with
  | table es => cases v <;> cases h
  | _ => exact h

section Merge
variable {low high : Tree} {i j : Nat} {name key : String} {v : Scalar}

/-- In a merged section a value comes from the higher one, or the higher one does not set it. -/
theorem member?_merge (hhigh : high.Flat) (h : (merge low high).member? j key = some v.toTree) :
    high.member? j key = some v.toTree ∨
      high.member? j key = none ∧ low.member? j key = some v.toTree := by
  cases high with
  | table es =>
    have hlookup : (mergeEntries low.entries es).lookup key = some v.toTree := h
    rw [lookup_mergeEntries (flat_table.1 hhigh)] at hlookup
    cases hes : es.lookup key with
    | none =>
      rw [hes, Option.elim_none] at hlookup
      cases low with
      | table ls => exact .inr ⟨hes, hlookup⟩
      | _ => cases hlookup
    | some u =>
      rw [hes, Option.elim_some] at hlookup
      have hu : u = v.toTree := by
        cases hl : low.entries.lookup key with
        | none =>
          rw [hl, Option.elim_none] at hlookup
          exact Option.some.inj hlookup
        | some l =>
          rw [hl, Option.elim_some] at hlookup
          exact scalar_of_merge (Option.some.inj hlookup)
      exact .inl (hu ▸ hes)
  | _ => exact .inl h

theorem setting?_merge (hlow : ∃ es, low = .table es) (hhigh : high.Orderly)
    (h : (merge low high).setting? i name j key = some v.toTree) :
    high.setting? i name j key = some v.toTree ∨
      high.setting? i name j key = none ∧ low.setting? i name j key = some v.toTree := by
  obtain ⟨ls, rfl⟩ := hlow
  obtain ⟨hs, rfl⟩ := hhigh.table
  obtain ⟨part, hsection, hvalue⟩ := Option.bind_eq_some_iff.1 h
  have hlookup : (mergeEntries ls hs).lookup name = some part := hsection
  rw [lookup_mergeEntries (flat_table.1 hhigh.flat)] at hlookup
  change (hs.lookup name).bind _ = _ ∨ (hs.lookup name).bind _ = _ ∧ (ls.lookup name).bind _ = _
  cases hhs : hs.lookup name with
  | none =>
    rw [hhs, Option.elim_none] at hlookup
    exact .inr ⟨rfl, Option.bind_eq_some_iff.2 ⟨part, hlookup, hvalue⟩⟩
  | some t =>
    have ht : t.Flat := by
      obtain ⟨before, after, hsplit, _⟩ := List.lookup_eq_some_iff.1 hhs
      exact hhigh.flats (name, t) (by rw [Tree.entries, hsplit]; simp)
    rw [hhs, Option.elim_some] at hlookup
    cases hls : ls.lookup name with
    | none =>
      rw [hls, Option.elim_none] at hlookup
      exact .inl (Option.some.inj hlookup ▸ hvalue)
    | some l =>
      rw [hls, Option.elim_some] at hlookup
      rw [← Option.some.inj hlookup] at hvalue
      exact member?_merge ht hvalue

end Merge

end Tree

/-- What the first of the layers that sets a value sets it to. -/
def highest (layers : List Tree) (i : Nat) (name : String) (j : Nat) (key : String) : Option Tree :=
  layers.findSome? fun t => t.setting? i name j key

theorem highest_of_merge {low middle high : Tree} (hlow : low.Orderly) (hmiddle : middle.Orderly)
    (hhigh : high.Orderly) {i j : Nat} {name key : String} {v : Scalar}
    (h : ((low.merge middle).merge high).setting? i name j key = some v.toTree) :
    highest [high, middle, low] i name j key = some v.toTree := by
  have hmerged := (Tree.orderly_merge hlow hmiddle).table
  rcases Tree.setting?_merge hmerged hhigh h with hthere | ⟨hnone, h⟩
  · simp [highest, hthere]
  · rcases Tree.setting?_merge hlow.table hmiddle h with hthere | ⟨hnone', h⟩
    · simp [highest, hnone, hthere]
    · simp [highest, hnone, hnone', h]

section Extraction

theorem member?_of_textAt {t : Tree} {j : Nat} {key s : String} (h : textAt t j key = some s) :
    t.member? j key = some (Scalar.text s).toTree := by
  obtain ⟨u, hu, htext⟩ := Option.bind_eq_some_iff.1 h
  cases u with
  | text s' => rw [hu, Option.some.inj htext]; rfl
  | _ => cases htext

theorem member?_of_integerAt {t : Tree} {j : Nat} {key : String} {low high n : Int}
    (h : integerAt t j key low high = some n) :
    t.member? j key = some (Scalar.integer n).toTree ∧ low ≤ n ∧ n ≤ high := by
  obtain ⟨u, hu, hn⟩ := Option.bind_eq_some_iff.1 h
  cases u with
  | integer m =>
    rw [Tree.integer?] at hn
    split at hn
    · next hrange =>
      obtain rfl := Option.some.inj hn
      exact ⟨hu, hrange⟩
    · cases hn
  | _ => cases hn

theorem member?_of_naturalAt {t : Tree} {j : Nat} {key : String} {bits n : Nat}
    (h : naturalAt t j key bits = some n) :
    t.member? j key = some (Scalar.integer n).toTree ∧ n < Nat.pow 2 bits := by
  obtain ⟨m, hm, rfl⟩ := Option.map_eq_some_iff.1 h
  obtain ⟨hmember, hlow, hhigh⟩ := member?_of_integerAt hm
  rw [Int.toNat_of_nonneg hlow]
  exact ⟨hmember, by omega⟩

/-- The values of a section stand in it at their places from `j` on. -/
def Stand (part : Tree) (j : Nat) : List (String × Scalar) → Prop
  | [] => True
  | (key, v) :: es => part.member? j key = some v.toTree ∧ Stand part (j + 1) es

theorem Stand.member? {part : Tree} {n j : Nat} {es : List (String × Scalar)} {key : String}
    {v : Scalar} (h : Stand part n es) (hj : es[j]? = some (key, v)) :
    part.member? (n + j) key = some v.toTree := by
  induction es generalizing n j with
  | nil => cases hj
  | cons e es ih =>
    cases j with
    | zero =>
      obtain rfl := Option.some.inj hj
      exact h.1
    | succ j =>
      have hmore := ih h.2 hj
      rwa [Nat.add_right_comm] at hmore

def SectionsStand (t : Tree) (i : Nat) : List (String × List (String × Scalar)) → Prop
  | [] => True
  | (name, es) :: rest =>
    (∃ part, t.member? i name = some part ∧ Stand part 0 es) ∧ SectionsStand t (i + 1) rest

theorem SectionsStand.setting? {t : Tree} {n i j : Nat}
    {sections : List (String × List (String × Scalar))}
    {name key : String} {es : List (String × Scalar)} {v : Scalar} (h : SectionsStand t n sections)
    (hi : sections[i]? = some (name, es)) (hj : es[j]? = some (key, v)) :
    t.setting? (n + i) name j key = some v.toTree := by
  induction sections generalizing n i with
  | nil => cases hi
  | cons p sections ih =>
    cases i with
    | zero =>
      obtain rfl := Option.some.inj hi
      obtain ⟨part, hsection, hstand⟩ := h.1
      have hmember := hstand.member? hj
      rw [Nat.zero_add] at hmember
      rw [Nat.add_zero, Tree.setting?, hsection]
      exact hmember
    | succ i =>
      have hmore := ih h.2 hi
      rwa [Nat.add_right_comm] at hmore

theorem int64_round {n : Int} (hlow : minInt ≤ n) (hhigh : n ≤ maxInt) :
    (Int64.ofInt n).toInt = n := by
  simp only [minInt, maxInt] at hlow hhigh
  exact Int64.toInt_ofInt_of_le (by omega) (by omega)

theorem sectionsStand_of_ofTree? {t : Tree} {s : Settings} (h : ofTree? t = some s) :
    SectionsStand t 0 s.sections := by
  have hbind : ∀ {α β : Type} {o : Option α} {f : α → Option β} {b : β}, (o >>= f) = some b →
      ∃ a, o = some a ∧ f a = some b := fun h => Option.bind_eq_some_iff.1 h
  unfold ofTree? at h
  obtain ⟨logging, hlogging, h⟩ := hbind h
  obtain ⟨server, hserver, h⟩ := hbind h
  obtain ⟨database, hdatabase, h⟩ := hbind h
  obtain ⟨migrator, hmigrator, h⟩ := hbind h
  obtain ⟨level, hlevel, h⟩ := hbind h
  obtain ⟨host, hhost, h⟩ := hbind h
  obtain ⟨port, hport, h⟩ := hbind h
  obtain ⟨src, hsrc, h⟩ := hbind h
  obtain ⟨dst, hdst, h⟩ := hbind h
  obtain ⟨pool, hpool, h⟩ := hbind h
  obtain ⟨busy, hbusy, h⟩ := hbind h
  obtain ⟨pattern, hpattern, h⟩ := hbind h
  obtain ⟨batch, hbatch, h⟩ := hbind h
  obtain ⟨topic, htopic, h⟩ := hbind h
  obtain ⟨group, hgroup, h⟩ := hbind h
  obtain ⟨redeliveries, hredeliveries, h⟩ := hbind h
  obtain rfl := Option.some.inj h
  obtain ⟨hport, hportSize⟩ := member?_of_naturalAt hport
  obtain ⟨hpool, hpoolSize⟩ := member?_of_naturalAt hpool
  obtain ⟨hbusy, hbusySize⟩ := member?_of_naturalAt hbusy
  obtain ⟨hbatch, hbatchLow, hbatchHigh⟩ := member?_of_integerAt hbatch
  obtain ⟨hredeliveries, hredeliveriesSize⟩ := member?_of_naturalAt hredeliveries
  rw [sections, UInt16.toNat_ofNat_of_lt' hportSize, UInt32.toNat_ofNat_of_lt' hpoolSize,
    UInt64.toNat_ofNat_of_lt' hbusySize, int64_round hbatchLow hbatchHigh,
    UInt32.toNat_ofNat_of_lt' hredeliveriesSize]
  exact ⟨⟨logging, hlogging, member?_of_textAt hlevel, trivial⟩,
    ⟨server, hserver, member?_of_textAt hhost, hport, trivial⟩,
    ⟨database, hdatabase, member?_of_textAt hsrc, member?_of_textAt hdst, hpool, hbusy, trivial⟩,
    ⟨migrator, hmigrator, member?_of_textAt hpattern, hbatch, member?_of_textAt htopic,
      member?_of_textAt hgroup, hredeliveries, trivial⟩, trivial⟩

end Extraction

section Layers

theorem default_orderly : default.toTree.Orderly where
  table := ⟨_, rfl⟩
  flat := by decide
  flats := by
    intro p hp
    simp only [toTree, sections, Tree.entries, List.map_cons, List.map_nil, List.mem_cons,
      List.not_mem_nil, or_false] at hp
    rcases hp with rfl | rfl | rfl | rfl <;> decide

theorem documentLayer_orderly {document : Option String} {file : Tree}
    (h : documentLayer? document = some file) : file.Orderly := by
  cases document with
  | none => exact Option.some.inj h ▸ Tree.orderly_empty
  | some text => exact Toml.table?_orderly h

/-- Each value of the settings is that of the first of the layers that sets it. -/
def FromHighest (layers : List Tree) (s : Settings) : Prop :=
  ∀ i name es j key v, s.sections[i]? = some (name, es) → es[j]? = some (key, v) →
    highest layers i name j key = some v.toTree

theorem fromHighest_of_merged {document : Option String} {e : Environment} {given : Settings}
    (h : (merged? document e).bind ofTree? = some given) :
    ∃ file, documentLayer? document = some file ∧
      FromHighest [e.layer, file, default.toTree] given := by
  obtain ⟨t, ht, hgiven⟩ := Option.bind_eq_some_iff.1 h
  obtain ⟨file, hfile, rfl⟩ := Option.map_eq_some_iff.1 ht
  refine ⟨file, hfile, fun i name es j key v hi hj => ?_⟩
  have hsetting := (sectionsStand_of_ofTree? hgiven).setting? hi hj
  rw [Nat.zero_add] at hsetting
  exact highest_of_merge default_orderly (documentLayer_orderly hfile)
    (Environment.layer_orderly e) hsetting

end Layers

/-- An accepted level loses its outer blanks and its capitals. -/
def mendedLevel (s : String) : String :=
  let t := Text.lower (Text.trim s)
  if t ∈ levels then t else default.level

def mendedPoolSize (n : UInt32) : UInt32 := if 0 < n then n else default.poolSize

/-- An accepted pattern loses its outer blanks and its small letters. -/
def mendedPattern (s : String) : String :=
  let t := Text.upper (Text.trim s)
  if t ∈ Pattern.all.map Pattern.name then t else default.pattern

def mendedBatchSize (n : Int64) : Int64 := if 0 < n then n else default.batchSize

/-- The settings, with the defaults of those that cannot be used. -/
def mended (s : Settings) : Settings :=
  { s with
    level := mendedLevel s.level
    poolSize := mendedPoolSize s.poolSize
    pattern := mendedPattern s.pattern
    batchSize := mendedBatchSize s.batchSize }

section Mended

theorem mended_level (s : Settings) : s.mended.level = mendedLevel s.level := by rw [mended]

theorem mended_poolSize (s : Settings) : s.mended.poolSize = mendedPoolSize s.poolSize := by
  rw [mended]

theorem mended_pattern (s : Settings) : s.mended.pattern = mendedPattern s.pattern := by rw [mended]

theorem mended_batchSize (s : Settings) : s.mended.batchSize = mendedBatchSize s.batchSize := by
  rw [mended]

theorem repairLevel_eq (s : String) : (repairLevel s).1 = mendedLevel s := by
  unfold repairLevel mendedLevel
  dsimp only
  split <;> rfl

theorem repairPoolSize_eq (n : UInt32) : (repairPoolSize n).1 = mendedPoolSize n := by
  by_cases h : n = 0
  · rw [repairPoolSize, if_pos h, mendedPoolSize, if_neg (by rw [h]; decide)]
  · rw [repairPoolSize, if_neg h, mendedPoolSize, if_pos (UInt32.pos_iff_ne_zero.2 h)]

theorem repairPattern_eq (s : String) : (repairPattern s).1 = mendedPattern s := by
  unfold repairPattern mendedPattern
  dsimp only
  cases h : Pattern.ofText? s with
  | some p =>
    have hname : p.name = Text.upper (Text.trim s) := by simpa using List.find?_some h
    have hmem : p ∈ Pattern.all := List.mem_of_find?_eq_some h
    rw [← hname, if_pos (List.mem_map_of_mem hmem)]
  | none =>
    have hnone := List.find?_eq_none.1 h
    rw [if_neg]
    intro hmem
    obtain ⟨p, hp, hname⟩ := List.mem_map.1 hmem
    exact hnone p hp (decide_eq_true hname)

theorem repairBatchSize_eq (n : Int64) : (repairBatchSize n).1 = mendedBatchSize n := by
  by_cases h : n ≤ 0
  · rw [repairBatchSize, if_pos h, mendedBatchSize, if_neg (Int64.not_lt.2 h)]
  · rw [repairBatchSize, if_neg h, mendedBatchSize, if_pos (Int64.not_le.1 h)]

theorem repair_eq_mended (s : Settings) : s.repair.1 = s.mended := by
  simp only [repair, mended, repairLevel_eq, repairPoolSize_eq, repairPattern_eq,
    repairBatchSize_eq]

theorem mendedLevel_mem (s : String) : mendedLevel s ∈ levels := by
  unfold mendedLevel
  dsimp only
  split
  · assumption
  · exact (by decide : default.level ∈ levels)

theorem mendedPoolSize_pos (n : UInt32) : 0 < mendedPoolSize n := by
  unfold mendedPoolSize
  split
  · assumption
  · exact (by decide : 0 < default.poolSize)

theorem mendedBatchSize_pos (n : Int64) : 0 < mendedBatchSize n := by
  unfold mendedBatchSize
  split
  · assumption
  · exact (by decide : 0 < default.batchSize)

theorem mendedPattern_name (s : String) : ∃ p : Pattern, mendedPattern s = p.name := by
  unfold mendedPattern
  dsimp only
  split
  · next h =>
    obtain ⟨p, _, hp⟩ := List.mem_map.1 h
    exact ⟨p, hp.symm⟩
  · exact ⟨.srcOnly, rfl⟩

theorem ofText?_name (p : Pattern) : Pattern.ofText? p.name = some p := by
  cases p <;> rfl

end Mended

/-- Settings that can be used for everything that they are read for. -/
structure Usable (s : Settings) : Prop where
  level : s.level ∈ levels
  poolSize : 0 < s.poolSize
  batchSize : 0 < s.batchSize
  /-- The name is one of a pattern, and read as that pattern, so no other one is taken in its
  stead. -/
  pattern : ∃ p : Pattern, s.pattern = p.name ∧ Pattern.ofText? s.pattern = some p
  settled : s.repair = (s, [])

theorem usable_mended (s : Settings) : Usable s.mended where
  level := by
    rw [mended_level]
    exact mendedLevel_mem s.level
  poolSize := by
    rw [mended_poolSize]
    exact mendedPoolSize_pos s.poolSize
  batchSize := by
    rw [mended_batchSize]
    exact mendedBatchSize_pos s.batchSize
  pattern := by
    obtain ⟨p, hp⟩ := mendedPattern_name s.pattern
    refine ⟨p, ?_⟩
    rw [mended_pattern, hp]
    exact ⟨rfl, ofText?_name p⟩
  settled := by
    rw [← repair_eq_mended]
    exact repair_repair s

theorem usable_default : Usable default where
  level := by decide
  poolSize := by decide
  batchSize := by decide
  pattern := ⟨.srcOnly, rfl, rfl⟩
  settled := rfl

/-- Loaded settings can be used, and are no mixture: either all values come from the highest layers
that set them, and those that cannot be used are mended one by one, or all are the defaults. -/
theorem loaded_settings_are_usable_and_unmixed (document : Option String) (e : Environment) :
    Usable (load document e).1 ∧
    match (merged? document e).bind ofTree? with
    | none => (load document e).1 = default
    | some given => (load document e).1 = given.mended ∧
      ∃ file, documentLayer? document = some file ∧
        FromHighest [e.layer, file, default.toTree] given := by
  unfold load
  cases h : (merged? document e).bind ofTree? with
  | none => exact ⟨usable_default, rfl⟩
  | some given =>
    have hmended := repair_eq_mended given
    refine ⟨?_, hmended, fromHighest_of_merged h⟩
    rw [hmended]
    exact usable_mended given

/-- The level loses its blanks, the port is the variable's and a pattern that is none gives way
alone; a port that is no number takes all settings along. -/
theorem loaded_settings_of_a_document_and_a_variable :
    let document :=
      "[logging]\nmigrator = \" WARN\"\n[server]\nport = 1\n[migrator]\npattern = \"both\""
    let port := "MIGRATOR_SERVER__PORT"
    Usable (load (some document) [(port, "99")]).1 ∧
      (load (some document) [(port, "99")]).1 = { default with level := "warn", port := 99 } ∧
      (load (some document) [(port, "none")]).1 = default := by
  intro document port
  obtain ⟨husable, hgiven⟩ := loaded_settings_are_usable_and_unmixed (some document) [(port, "99")]
  obtain ⟨_, hnone⟩ := loaded_settings_are_usable_and_unmixed (some document) [(port, "none")]
  have hmerged : (merged? (some document) [(port, "99")]).bind ofTree? =
      some { default with level := " WARN", port := 99, pattern := "both" } := by decide +kernel
  have hunread : (merged? (some document) [(port, "none")]).bind ofTree? = none := by decide +kernel
  rw [hmerged] at hgiven
  rw [hunread] at hnone
  refine ⟨husable, hgiven.1.trans ?_, hnone⟩
  decide +kernel

end DualWrite.Settings
