import DualWrite.Toml.Table

/-!
# Tables of a document of headers and pairs

Headers of one part with pairs of one part below them make one table for each header, if no header
comes twice and no key comes twice below its header. The tables and their entries stand in the order
of the document.
-/
namespace DualWrite.Toml

open Settings (Tree)

/-- A header and the pairs below it. -/
abbrev Section := String × List (String × Tree)

namespace Section

def lines (p : Section) : List Line := .header [] p.1 :: p.2.map fun q => .pair [] q.1 q.2

def table (p : Section) : String × Node :=
  (p.1, .table .header (p.2.map fun q => (q.1, .value q.2)))

def tree (p : Section) : String × Tree := (p.1, .table p.2)

end Section

namespace Node

variable {k : String} {f : Option Node → Option Node} {es : Entries}

theorem alter_new (h : k ∉ es.map (·.1)) : alter k f es = (f none).map fun n => es ++ [(k, n)] := by
  induction es with
  | nil => rfl
  | cons e es ih =>
    obtain ⟨hk, hes⟩ := not_or.1 (mt List.mem_cons.2 h)
    rw [alter, if_neg (Ne.symm hk), ih hes]
    cases f none <;> rfl

theorem alter_last (h : k ∉ es.map (·.1)) (n : Node) :
    alter k f (es ++ [(k, n)]) = (f (some n)).map fun n' => es ++ [(k, n')] := by
  induction es with
  | nil => exact if_pos rfl
  | cons e es ih =>
    obtain ⟨hk, hes⟩ := not_or.1 (mt List.mem_cons.2 h)
    rw [List.cons_append, alter, if_neg (Ne.symm hk), ih hes]
    cases f (some n) <;> rfl

theorem treesOfEntries_eq (es : Entries) :
    treesOfEntries es = es.map fun e => (e.1, e.2.toTree) := by
  induction es with
  | nil => rfl
  | cons e es ih => rw [treesOfEntries, ih, List.map_cons]

end Node

namespace Draft

open Node

variable {root : Entries} {here : List String} {k : String}

theorem add_header (h : k ∉ root.map (·.1)) :
    add ⟨root, here⟩ (.header [] k) = some ⟨root ++ [(k, .table .header [])], [k]⟩ := by
  have hroot : atPath (alter k openTable) [] ⟨root, here⟩ =
    some (root ++ [(k, .table .header [])]) :=
    alter_new h
  rw [add, hroot]
  rfl

theorem add_pair (h : k ∉ root.map (·.1)) {es : Entries} {k' : String} (hkey : k' ∉ es.map (·.1))
    (t : Tree) : add ⟨root ++ [(k, .table .header es)], [k]⟩ (.pair [] k' t) =
      some ⟨root ++ [(k, .table .header (es ++ [(k', .value t)]))], [k]⟩ := by
  have hentries : addPair [] k' t es = some (es ++ [(k', .value t)]) := by
    have hplace : Origin.header = .dotted ↔ ([] : List String) ≠ [] :=
      ⟨nofun, fun h => absurd rfl h⟩
    have hpair : addPair [] k' t es = addValue k' t es := by
      rw [addPair, within, if_pos hplace]
    exact hpair.trans (alter_new hkey)
  have hroot : atPath (addPair [] k' t) [k] ⟨root ++ [(k, .table .header es)], [k]⟩ =
      some (root ++ [(k, .table .header (es ++ [(k', .value t)]))]) := by
    refine (alter_last h _).trans ?_
    have htable : (Node.table .header es).alterTable
        (fun _ es' => addPair [] k' t es') = some (.table .header (es ++ [(k', .value t)])) := by
      rw [alterTable, hentries]
      rfl
    exact congrArg (Option.map _) htable
  rw [add, hroot]
  rfl

theorem add_pairs (h : k ∉ root.map (·.1)) (qs : List (String × Tree)) (es : Entries)
    (hnodup : (es.map (·.1) ++ qs.map (·.1)).Nodup) :
    (qs.map fun q => Line.pair [] q.1 q.2).foldlM add ⟨root ++ [(k, .table .header es)], [k]⟩ =
      some ⟨root ++ [(k, .table .header (es ++ qs.map fun q => (q.1, .value q.2)))], [k]⟩ := by
  -- The keys read so far and those still to come are kept apart by one list without doubles.
  induction qs generalizing es with
  | nil => rw [List.map_nil, List.map_nil, List.append_nil]; rfl
  | cons q qs ih =>
    have hmove : es.map (·.1) ++ (q :: qs).map (·.1) =
        (es ++ [(q.1, Node.value q.2)]).map (·.1) ++ qs.map (·.1) := by simp
    have hkey : q.1 ∉ es.map (·.1) := fun hmem =>
      (List.nodup_append.1 hnodup).2.2 _ hmem _ List.mem_cons_self rfl
    have hrest := ih (es ++ [(q.1, .value q.2)]) (hmove ▸ hnodup)
    rw [List.map_cons, List.foldlM_cons, add_pair h hkey]
    refine hrest.trans ?_
    rw [List.append_assoc, List.map_cons]
    rfl

theorem add_section {p : Section} (hnew : p.1 ∉ root.map (·.1)) (hnodup : (p.2.map (·.1)).Nodup) :
    p.lines.foldlM add ⟨root, here⟩ = some ⟨root ++ [p.table], [p.1]⟩ := by
  rw [Section.lines, List.foldlM_cons, add_header hnew]
  exact add_pairs hnew p.2 [] (by simpa using hnodup)

theorem add_sections (ps : List Section) (root : Entries) (here : List String)
    (hnodup : (root.map (·.1) ++ ps.map (·.1)).Nodup)
    (hpairs : ∀ p ∈ ps, (p.2.map (·.1)).Nodup) :
    ∃ here', (ps.flatMap Section.lines).foldlM add ⟨root, here⟩ =
      some ⟨root ++ ps.map Section.table, here'⟩ := by
  induction ps generalizing root here with
  | nil => exact ⟨here, by rw [List.map_nil, List.append_nil]; rfl⟩
  | cons p ps ih =>
    obtain ⟨hp, hps⟩ := List.forall_mem_cons.1 hpairs
    have hmove : root.map (·.1) ++ (p :: ps).map (·.1) =
        (root ++ [p.table]).map (·.1) ++ ps.map (·.1) := by simp [Section.table]
    have hnew : p.1 ∉ root.map (·.1) := fun hmem =>
      (List.nodup_append.1 hnodup).2.2 _ hmem _ List.mem_cons_self rfl
    obtain ⟨here', hrest⟩ := ih (root ++ [p.table]) [p.1] (hmove ▸ hnodup) hps
    refine ⟨here', ?_⟩
    rw [List.flatMap_cons, List.foldlM_append, add_section hnew hp]
    refine hrest.trans ?_
    rw [List.append_assoc, List.map_cons]
    rfl

/-- A document of sections makes a table of their tables. -/
theorem tree_sections (ps : List Section) (hnodup : (ps.map (·.1)).Nodup)
    (hpairs : ∀ p ∈ ps, (p.2.map (·.1)).Nodup) :
    ((ps.flatMap Section.lines).foldlM add empty).map (fun d => treesOfEntries d.root) =
      some (ps.map Section.tree) := by
  obtain ⟨here', hrun⟩ := add_sections ps [] [] (by simpa using hnodup) hpairs
  rw [empty, hrun, Option.map_some, List.nil_append, treesOfEntries_eq, List.map_map]
  refine congrArg some (List.map_congr_left fun p _ => ?_)
  have hentries : treesOfEntries (p.2.map fun q => (q.1, .value q.2)) = p.2 := by
    rw [treesOfEntries_eq, List.map_map]
    exact (List.map_congr_left fun _ _ => rfl).trans (List.map_id p.2)
  change (p.1, Tree.table (treesOfEntries (p.2.map fun q => (q.1, .value q.2)))) = _
  rw [hentries]
  rfl

end Draft

end DualWrite.Toml
