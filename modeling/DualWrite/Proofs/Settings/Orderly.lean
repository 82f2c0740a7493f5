import DualWrite.Proofs.Text.Reading
import DualWrite.Proofs.Toml.Tables
import DualWrite.Settings.Load

/-!
# Layers in which no key stands twice

A layer is read from a document or from variables. Either way it is a table, and neither in it nor
in a table in it does a key stand twice; so it can be looked up entry by entry when it is merged.
-/
namespace DualWrite.Settings

open Text Text.Reading

namespace Tree

section Put
variable (k k' : String) (t : Tree) (es : Entries)

theorem lookup_put : (put k t es).lookup k' = if k' = k then some t else es.lookup k' := by
  induction es with
  | nil =>
    by_cases h : k' = k
    · simp [put, h]
    · simp [put, h, List.lookup_cons, beq_eq_false_iff_ne.2 h]
  | cons e es ih =>
    obtain ⟨l, u⟩ := e
    rw [put]
    by_cases hl : l = k
    · rw [if_pos hl]
      by_cases h : k' = k
      · simp [h]
      · simp [h, hl, List.lookup_cons, beq_eq_false_iff_ne.2 h]
    · rw [if_neg hl, List.lookup_cons, List.lookup_cons, ih]
      by_cases h : k' = l
      · simp [h, hl]
      · simp [beq_eq_false_iff_ne.2 h]

theorem keys_put : (put k t es).map (·.1) =
    if k ∈ es.map (·.1) then es.map (·.1) else es.map (·.1) ++ [k] := by
  induction es with
  | nil => rfl
  | cons e es ih =>
    obtain ⟨l, u⟩ := e
    rw [put]
    by_cases hl : l = k
    · simp [hl]
    · rw [if_neg hl, List.map_cons, ih]
      by_cases hk : k ∈ es.map (·.1)
      · simp [hk]
      · simp [hk, Ne.symm hl]

variable {k t es}

theorem mem_put {p : String × Tree} (h : p ∈ put k t es) : p = (k, t) ∨ p ∈ es := by
  induction es with
  | nil => exact .inl (List.mem_singleton.1 h)
  | cons e es ih =>
    rw [put] at h
    split at h
    · exact (List.mem_cons.1 h).imp_right (List.mem_cons_of_mem e)
    · rcases List.mem_cons.1 h with rfl | h
      · exact .inr List.mem_cons_self
      · exact (ih h).imp_right (List.mem_cons_of_mem e)

theorem nodup_put (h : (es.map (·.1)).Nodup) : ((put k t es).map (·.1)).Nodup := by
  rw [keys_put]
  split
  · exact h
  · next hk =>
    refine List.nodup_append.2 ⟨h, by simp, ?_⟩
    rintro l hl _ hsame rfl
    exact hk (List.mem_singleton.1 hsame ▸ hl)

end Put

/-- If the tree is a table, no key stands in it twice. -/
def Flat (t : Tree) : Prop := (t.entries.map (·.1)).Nodup

instance (t : Tree) : Decidable t.Flat := inferInstanceAs (Decidable (List.Nodup _))

theorem flat_table {es : Entries} : (table es).Flat ↔ (es.map (·.1)).Nodup := Iff.rfl

/-- A table in which no key stands twice, as none does in the tables in it. -/
structure Orderly (t : Tree) : Prop where
  table : ∃ es, t = .table es
  flat : t.Flat
  flats : ∀ p ∈ t.entries, p.2.Flat

theorem flat_foldl_put {es : Entries} (h : (es.map (·.1)).Nodup) (ps : List (String × Tree)) :
    ((ps.foldl (fun t (k, v) => put k v t) es).map (·.1)).Nodup := by
  induction ps generalizing es with
  | nil => exact h
  | cons p ps ih => exact ih (nodup_put h)

section Merge

/-- What is under a key of the merged entries, if no key of the higher ones stands twice. -/
theorem lookup_mergeEntries {low high : Entries} (h : (high.map (·.1)).Nodup) (k : String) :
    (mergeEntries low high).lookup k = (high.lookup k).elim (low.lookup k) fun t =>
      some ((low.lookup k).elim t fun l => merge l t) := by
  induction high generalizing low with
  | nil => rfl
  | cons p high ih =>
    obtain ⟨l, t⟩ := p
    rw [List.map_cons, List.nodup_cons] at h
    obtain ⟨hl, hmore⟩ := h
    rw [mergeEntries, ih hmore, List.lookup_cons]
    by_cases hk : k = l
    · subst hk
      have hnone : high.lookup k = none := by
        refine List.lookup_eq_none_iff.2 fun p hp => bne_iff_ne.2 ?_
        rintro rfl
        exact hl (List.mem_map.2 ⟨p, hp, rfl⟩)
      simp only [hnone, lookup_put, if_pos, beq_self_eq_true, Option.elim_none, Option.elim_some]
      cases low.lookup k <;> rfl
    · simp only [lookup_put, if_neg hk, beq_eq_false_iff_ne.2 hk]

theorem nodup_mergeEntries {low : Entries} (h : (low.map (·.1)).Nodup) (high : Entries) :
    ((mergeEntries low high).map (·.1)).Nodup := by
  induction high generalizing low with
  | nil => exact h
  | cons p high ih => exact ih (nodup_put h)

theorem flat_merge {low high : Tree} (hlow : low.Flat) (hhigh : high.Flat) :
    (merge low high).Flat := by
  cases high with
  | table es => exact nodup_mergeEntries hlow es
  | _ => exact hhigh

theorem flats_mergeEntries {low high : Entries} (hlow : ∀ p ∈ low, p.2.Flat)
    (hhigh : ∀ p ∈ high, p.2.Flat) : ∀ p ∈ mergeEntries low high, p.2.Flat := by
  induction high generalizing low with
  | nil => exact hlow
  | cons q high ih =>
    obtain ⟨k, t⟩ := q
    obtain ⟨ht, hmore⟩ := List.forall_mem_cons.1 hhigh
    refine ih (fun p hp => ?_) hmore
    rcases mem_put hp with rfl | hp
    · dsimp only
      cases hl : low.lookup k with
      | none => exact ht
      | some l =>
        obtain ⟨before, after, rfl, _⟩ := List.lookup_eq_some_iff.1 hl
        exact flat_merge (hlow (k, l) (by simp)) ht
    · exact hlow p hp

theorem orderly_merge {low high : Tree} (hlow : low.Orderly) (hhigh : high.Orderly) :
    (merge low high).Orderly := by
  obtain ⟨es, rfl⟩ := hhigh.table
  exact ⟨⟨_, rfl⟩, flat_merge hlow.flat hhigh.flat, flats_mergeEntries hlow.flats hhigh.flats⟩

theorem flat_single (k : String) (t : Tree) : (table [(k, t)]).Flat :=
  List.nodup_cons.2 ⟨List.not_mem_nil, List.nodup_nil⟩

theorem flat_nest (path : List String) {t : Tree} (ht : t.Flat) : (nest path t).Flat := by
  cases path with
  | nil => exact ht
  | cons k path => exact flat_single k _

theorem orderly_nest (k : String) (path : List String) {t : Tree} (ht : t.Flat) :
    (nest (k :: path) t).Orderly where
  table := ⟨_, rfl⟩
  flat := flat_single k _
  flats := fun _ hp => List.mem_singleton.1 hp ▸ flat_nest path ht

theorem orderly_empty : (table []).Orderly where
  table := ⟨_, rfl⟩
  flat := List.nodup_nil
  flats := fun _ hp => absurd hp List.not_mem_nil

end Merge

end Tree

namespace Environment

open DualWrite.Settings.Tree

theorem gives_bare : Gives bare Flat := by
  refine .after fun cs => .pure ?_
  unfold bareTree
  split
  · exact List.nodup_nil
  · split <;> exact List.nodup_nil

theorem gives_truth : Gives truth Flat :=
  .orElse (.seqRight (.pure List.nodup_nil)) (.seqRight (.pure List.nodup_nil))

theorem gives_value (depth : Nat) : Gives (value depth) Flat := by
  have hnone : (([] : Entries).map (·.1)).Nodup := List.nodup_nil
  have hgap : ∀ {r : Reading Tree}, Gives r Flat → Gives (do let t ← r; gap; return t) Flat :=
    fun hr => .bind hr fun t ht => .after fun _ => .pure ht
  cases depth with
  | zero => exact .failure
  | succ depth =>
    refine .after fun _ => .after fun c => ?_
    dsimp only
    split
    · exact .after fun _ => .after fun es => hgap (.pure (flat_foldl_put hnone es))
    · exact .after fun _ => .after fun _ => hgap (.pure List.nodup_nil)
    · exact .after fun _ => hgap (.pure List.nodup_nil)
    · exact .after fun _ => hgap (.pure List.nodup_nil)
    · exact hgap (.orElse gives_truth gives_bare)

theorem flat_treeOf (s : String) : (treeOf s).Flat := by
  unfold treeOf
  cases h : whole? (value (s.length + 1)) s.toList with
  | none => exact List.nodup_nil
  | some t => exact (gives_value _).whole h

theorem parts_ne_nil (cs : List Char) : parts cs ≠ [] := by
  fun_cases parts cs <;> simp_all

theorem path?_cons {name : String} {path : List String} (h : path? name = some path) :
    ∃ k rest, path = k :: rest := by
  refine List.exists_cons_of_ne_nil ?_
  unfold path? at h
  dsimp only at h
  split at h
  · split at h
    · cases h
    · rw [← Option.some.inj h, ne_eq, List.map_eq_nil_iff]
      exact parts_ne_nil _
  · cases h

theorem orderly_add {t : Tree} (ht : t.Orderly) (name text : String) :
    (add t name text).Orderly := by
  unfold add
  split
  · next path hpath =>
    obtain ⟨k, rest, rfl⟩ := path?_cons hpath
    exact orderly_merge ht (orderly_nest k rest (flat_treeOf text))
  · exact ht

theorem orderly_foldl_add (e : Environment) {t : Tree} (ht : t.Orderly) :
    (e.foldl (fun t v => add t v.1 v.2) t).Orderly := by
  induction e generalizing t with
  | nil => exact ht
  | cons v e ih =>
    rw [List.foldl_cons]
    exact ih (orderly_add ht v.1 v.2)

/-- What the variables set. -/
theorem layer_orderly (e : Environment) : e.layer.Orderly := orderly_foldl_add e orderly_empty

end Environment

end DualWrite.Settings

namespace DualWrite.Toml

open Settings (Tree)
open Text Text.Reading

namespace Node

def Distinct (es : Entries) : Prop := (es.map (·.1)).Nodup

theorem distinct_nil : Distinct [] := List.nodup_nil

theorem flat_treesOfEntries {es : Entries} :
    (Tree.table (treesOfEntries es)).Flat ↔ Distinct es := by
  rw [Tree.Flat, Tree.entries, treesOfEntries_eq, List.map_map]
  rfl

/-- The same of the tables in the table. -/
structure Orderly (es : Entries) : Prop where
  distinct : Distinct es
  flats : ∀ p ∈ es, p.2.toTree.Flat

section Alter
variable {k : String} {f : Option Node → Option Node} {es es' : Entries}

theorem keys_alter (h : alter k f es = some es') :
    es'.map (·.1) = if k ∈ es.map (·.1) then es.map (·.1) else es.map (·.1) ++ [k] := by
  induction es generalizing es' with
  | nil =>
    obtain ⟨n, _, rfl⟩ := Option.map_eq_some_iff.1 h
    rfl
  | cons e es ih =>
    obtain ⟨l, m⟩ := e
    rw [alter] at h
    split at h
    · next hl =>
      obtain ⟨n, _, rfl⟩ := Option.map_eq_some_iff.1 h
      simp [hl]
    · next hl =>
      obtain ⟨r, hr, rfl⟩ := Option.map_eq_some_iff.1 h
      rw [List.map_cons, ih hr]
      by_cases hk : k ∈ es.map (·.1)
      · simp [hk]
      · simp [hk, Ne.symm hl]

theorem distinct_alter (hes : Distinct es) (h : alter k f es = some es') : Distinct es' := by
  rw [Distinct, keys_alter h]
  split
  · exact hes
  · next hk =>
    refine List.nodup_append.2 ⟨hes, by simp, ?_⟩
    rintro l hl _ hsame rfl
    exact hk (List.mem_singleton.1 hsame ▸ hl)

theorem flats_alter (hes : ∀ p ∈ es, p.2.toTree.Flat)
    (hnew : ∀ n, f none = some n → n.toTree.Flat)
    (hold : ∀ m n, m.toTree.Flat → f (some m) = some n → n.toTree.Flat)
    (h : alter k f es = some es') : ∀ p ∈ es', p.2.toTree.Flat := by
  induction es generalizing es' with
  | nil =>
    obtain ⟨n, hn, rfl⟩ := Option.map_eq_some_iff.1 h
    exact List.forall_mem_singleton.2 (hnew n hn)
  | cons e es ih =>
    obtain ⟨l, m⟩ := e
    obtain ⟨hm, hmore⟩ := List.forall_mem_cons.1 hes
    rw [alter] at h
    split at h
    · obtain ⟨n, hn, rfl⟩ := Option.map_eq_some_iff.1 h
      exact List.forall_mem_cons.2 ⟨hold m n hm hn, hmore⟩
    · obtain ⟨r, hr, rfl⟩ := Option.map_eq_some_iff.1 h
      exact List.forall_mem_cons.2 ⟨hm, ih hmore hr⟩

theorem flat_alterTable {g : Origin → Entries → Option Entries} {m n : Node}
    (hg : ∀ o es es', Distinct es → g o es = some es' → Distinct es') (hm : m.toTree.Flat)
    (h : m.alterTable g = some n) : n.toTree.Flat := by
  cases m with
  | value t => cases h
  | table o es =>
    obtain ⟨es', hes', rfl⟩ := Option.map_eq_some_iff.1 h
    exact flat_treesOfEntries.2 (hg o es es' (flat_treesOfEntries.1 hm) hes')
  | tables items =>
    rw [alterTable] at h
    split at h
    · obtain ⟨es', _, rfl⟩ := Option.map_eq_some_iff.1 h
      exact List.nodup_nil
    · cases h

end Alter

section Within
variable {made : Origin} {entered : Origin → Bool} {f : Origin → Entries → Option Entries}
  (hf : ∀ o es es', Distinct es → f o es = some es' → Distinct es')
include hf

theorem distinct_within {path : List String} {o : Origin} {es es' : Entries} (hes : Distinct es)
    (h : within made entered f path o es = some es') : Distinct es' := by
  cases path with
  | nil => exact hf o es es' hes h
  | cons k path => exact distinct_alter hes h

/-- Below the first key of the path it is enough that the keys of each table differ. -/
theorem orderly_within (hf' : ∀ o es es', Orderly es → f o es = some es' → Orderly es')
    {path : List String} {o : Origin} {es es' : Entries} (hes : Orderly es)
    (h : within made entered f path o es = some es') : Orderly es' := by
  cases path with
  | nil => exact hf' o es es' hes h
  | cons k path =>
    rw [within] at h
    refine ⟨distinct_alter hes.distinct h, flats_alter hes.flats ?_ ?_ h⟩
    · intro n hn
      have hempty : (table made []).toTree.Flat := flat_treesOfEntries.2 distinct_nil
      exact flat_alterTable (fun _ _ _ => distinct_within hf) hempty hn
    · intro m n hm hn
      refine flat_alterTable (fun o es es' hdistinct hes' => ?_) hm hn
      cases m with
      | table o' _ =>
        dsimp only at hes'
        split at hes'
        · exact distinct_within hf hdistinct hes'
        · cases hes'
      | value _ | tables _ => exact distinct_within hf hdistinct hes'

end Within

section Pairs
variable {k : String} {t : Tree} {es es' : Entries}

theorem orderly_addValue (ht : t.Flat) (hes : Orderly es) (h : addValue k t es = some es') :
    Orderly es' := by
  refine ⟨distinct_alter hes.distinct h, flats_alter hes.flats ?_ ?_ h⟩
  · intro n hn
    rw [← Option.some.inj hn]
    exact ht
  · intro m n _ hn
    cases hn

theorem distinct_addPair {path : List String} (hes : Distinct es)
    (h : addPair path k t es = some es') : Distinct es' := by
  refine distinct_within (fun o es es' hes h => ?_) hes h
  split at h
  · exact distinct_alter hes h
  · cases h

theorem orderly_addPair {path : List String} (ht : t.Flat) (hes : Orderly es)
    (h : addPair path k t es = some es') : Orderly es' := by
  refine orderly_within (fun o es es' hes h => ?_) (fun o es es' hes h => ?_) hes h
  · split at h
    · exact distinct_alter hes h
    · cases h
  · split at h
    · exact orderly_addValue ht hes h
    · cases h

theorem distinct_addPairs {ps : List ((List String × String) × Tree)} (hes : Distinct es)
    (h : addPairs ps es = some es') : Distinct es' := by
  induction ps generalizing es with
  | nil => exact Option.some.inj h ▸ hes
  | cons p ps ih =>
    obtain ⟨⟨path, k⟩, t⟩ := p
    obtain ⟨es₁, hes₁, h⟩ := Option.bind_eq_some_iff.1 h
    exact ih (distinct_addPair hes hes₁) h

end Pairs

end Node

open Node

def Line.Flat : Line → Prop
  | .pair _ _ t => t.Flat
  | _ => True

theorem orderly_openTable {k : String} {es es' : Entries} (hes : Orderly es)
    (h : alter k Draft.openTable es = some es') : Orderly es' := by
  refine ⟨distinct_alter hes.distinct h, flats_alter hes.flats ?_ ?_ h⟩
  · intro n hn
    rw [← Option.some.inj hn]
    exact flat_treesOfEntries.2 distinct_nil
  · intro m n hm hn
    cases m with
    | value _ | tables _ => cases hn
    | table o es =>
      cases o with
      | header | dotted => cases hn
      | implied =>
        rw [← Option.some.inj hn]
        exact hm

theorem orderly_openItem {k : String} {es es' : Entries} (hes : Orderly es)
    (h : alter k Draft.openItem es = some es') : Orderly es' := by
  refine ⟨distinct_alter hes.distinct h, flats_alter hes.flats ?_ ?_ h⟩
  · intro n hn
    rw [← Option.some.inj hn]
    exact List.nodup_nil
  · intro m n _ hn
    cases m with
    | value _ | table _ _ => cases hn
    | tables items =>
      rw [← Option.some.inj hn]
      exact List.nodup_nil

theorem orderly_add {d d' : Draft} {l : Line} (hl : l.Flat) (hd : Orderly d.root)
    (h : d.add l = some d') : Orderly d'.root := by
  cases l with
  | header path k =>
    obtain ⟨root, hroot, rfl⟩ := Option.map_eq_some_iff.1 h
    exact orderly_within (fun _ _ _ => distinct_alter) (fun _ _ _ => orderly_openTable) hd hroot
  | listHeader path k =>
    obtain ⟨root, hroot, rfl⟩ := Option.map_eq_some_iff.1 h
    exact orderly_within (fun _ _ _ => distinct_alter) (fun _ _ _ => orderly_openItem) hd hroot
  | pair path k t =>
    obtain ⟨root, hroot, rfl⟩ := Option.map_eq_some_iff.1 h
    exact orderly_within (fun _ _ _ => distinct_addPair) (fun _ _ _ => orderly_addPair hl) hd hroot

theorem orderly_foldlM_add {ls : List Line} (hls : ∀ l ∈ ls, l.Flat) {d d' : Draft}
    (hd : Orderly d.root) (h : ls.foldlM Draft.add d = some d') : Orderly d'.root := by
  induction ls generalizing d with
  | nil => exact Option.some.inj h ▸ hd
  | cons l ls ih =>
    obtain ⟨hl, hmore⟩ := List.forall_mem_cons.1 hls
    rw [List.foldlM_cons] at h
    obtain ⟨d₁, hd₁, h⟩ := Option.bind_eq_some_iff.1 h
    exact ih hmore (orderly_add hl hd hd₁) h

section Lines

theorem gives_scalar : Gives scalar Tree.Flat := by
  have hnone : ∀ t : Tree, t.entries = [] → t.Flat := by
    intro t ht
    rw [Tree.Flat, ht]
    exact List.nodup_nil
  refine .orElse (.after fun _ => .pure (hnone _ rfl)) <| .orElse (.seqRight (.pure ?_)) <|
    .orElse (.seqRight (.pure (hnone _ rfl))) <| .orElse (.seqRight (.pure (hnone _ rfl))) <|
    .orElse (.after fun _ => .pure (hnone _ rfl)) <| .orElse (.seqRight (.pure (hnone _ rfl))) <|
    .seqRight (.pure (hnone _ rfl))
  exact Tree.flat_single _ _

theorem gives_array (r : Reading Tree) : Gives (array r) Tree.Flat := by
  have hend : ∀ items : List Tree, Gives (do gaps; mark ']'; return Tree.list items) Tree.Flat :=
    fun _ => .after fun _ => .after fun _ => .pure List.nodup_nil
  refine .after fun _ => .after fun items => ?_
  dsimp only
  split
  · exact hend items
  · exact .after fun _ => hend items

theorem gives_inlineTable (r : Reading Tree) : Gives (inlineTable r) Tree.Flat := by
  refine .after fun _ => .after fun pairs => .after fun _ => .after fun _ => ?_
  split
  · next es hes => exact .pure (flat_treesOfEntries.2 (distinct_addPairs distinct_nil hes))
  · exact .failure

theorem gives_value (depth : Nat) : Gives (value depth) Tree.Flat := by
  cases depth with
  | zero => exact gives_scalar
  | succ depth => exact .orElse gives_scalar (.orElse (gives_array _) (gives_inlineTable _))

theorem gives_headerLine : Gives headerLine Line.Flat :=
  .after fun _ => .after fun _ => .after fun _ => .after fun _ => .pure trivial

theorem gives_listHeaderLine : Gives listHeaderLine Line.Flat :=
  .after fun _ => .after fun _ => .after fun _ => .after fun _ => .pure trivial

theorem gives_pairLine : Gives pairLine Line.Flat :=
  .after fun _ => .after fun _ => .after fun _ => .bind (gives_value _) fun _ ht =>
    .after fun _ => .pure ht

theorem gives_line : Gives line fun l => ∀ x ∈ l, x.Flat := by
  have hsome : ∀ {r : Reading Line}, Gives r Line.Flat →
      Gives (some <$> r) fun l => ∀ x ∈ l, x.Flat := by
    intro r hr
    refine .map fun cs a rest h x hx => ?_
    exact Option.mem_some_iff.1 hx ▸ hr cs a rest h
  have hnone : ∀ x ∈ (none : Option Line), x.Flat := fun x hx => absurd hx (by simp)
  refine .seqLeft (.orElse (hsome ?_) (.orElse ?_ ?_))
  · exact .orElse gives_listHeaderLine (.orElse gives_headerLine gives_pairLine)
  · exact .seqRight (.pure hnone)
  · exact .seqRight (.pure hnone)

theorem gives_lines : Gives lines fun ls => ∀ l ∈ ls, ∀ x ∈ l, x.Flat :=
  .after fun _ => .after fun _ => .bind (.many gives_line) fun _ hls => .after fun _ => .pure hls

end Lines

/-- What a document describes. -/
theorem table?_orderly {document : String} {t : Tree} (h : table? document = some t) :
    t.Orderly := by
  obtain ⟨ls, hls, h⟩ := Option.bind_eq_some_iff.1 h
  obtain ⟨d, hd, h⟩ := Option.bind_eq_some_iff.1 h
  obtain rfl := Option.some.inj h
  have hflat : ∀ l ∈ ls.filterMap id, l.Flat := by
    intro l hl
    obtain ⟨o, ho, hol⟩ := List.mem_filterMap.1 hl
    exact gives_lines.whole hls o ho l hol
  have hroot : Orderly d.root :=
    orderly_foldlM_add hflat ⟨distinct_nil, fun _ hp => absurd hp List.not_mem_nil⟩ hd
  refine ⟨⟨_, rfl⟩, flat_treesOfEntries.2 hroot.distinct, fun p hp => ?_⟩
  rw [Tree.entries, treesOfEntries_eq] at hp
  obtain ⟨e, he, rfl⟩ := List.mem_map.1 hp
  exact hroot.flats e he

end DualWrite.Toml
