import DualWrite.Proofs.Toml.Lines
import DualWrite.Proofs.Toml.Numbers
import DualWrite.Proofs.Toml.Tables
import DualWrite.Settings.Load

/-!
# Written sections are read

Sections of texts and whole numbers, written one below the other, are read as the same sections if
sixty-four bits with a sign hold every number. If one of the numbers is larger, the whole document
is refused.
-/
namespace DualWrite.Settings

open Text.Reading
open Toml

abbrev Sections := List (String × List (String × Scalar))

def Scalar.fits : Scalar → Bool
  | .text _ => true
  | .integer n => DualWrite.fits n

section Values

theorem value_written {v : Scalar} (h : v.fits = true) (rest : List Char) :
    value (depthLimit - 1) (v.written ++ '\n' :: rest) = some (v.toTree, '\n' :: rest) := by
  cases v with
  | text s => exact value_text s rest _
  | integer n => exact (value_integer n rest _).trans (if_pos h)

theorem value_written_none {v : Scalar} (h : v.fits = false) (rest : List Char) :
    value (depthLimit - 1) (v.written ++ '\n' :: rest) = none := by
  cases v with
  | text s => cases h
  | integer n => exact (value_integer n rest _).trans (if_neg (Bool.eq_false_iff.1 h))

theorem stops_written (v : Scalar) (rest : List Char) :
    Stops isSpace (v.written ++ '\n' :: rest) := by
  cases v with
  | text s => exact stops_quoted rfl rfl s _
  | integer n =>
    obtain ⟨negative, m, _, hline⟩ := toString_numberLine n rest
    rw [Scalar.written, hline]
    exact stops_numberLine negative m rest rfl fun c hc => by
      refine Bool.eq_false_iff.2 fun hspace => ?_
      simp only [isSpace, Bool.or_eq_true, decide_eq_true_eq] at hspace
      rcases hspace with rfl | rfl <;> cases hc

end Values

def names (ps : Sections) : List (String × List String) := ps.map fun p => (p.1, p.2.map (·.1))

/-- Headers and keys that stand for themselves, none of them twice in one place. -/
structure Layout (ns : List (String × List String)) : Prop where
  headers : ∀ p ∈ ns, IsKey p.1
  keys : ∀ p ∈ ns, ∀ k ∈ p.2, IsKey k
  headersOnce : (ns.map (·.1)).Nodup
  keysOnce : ∀ p ∈ ns, p.2.Nodup

section Names
variable {ps : Sections} (hl : Layout (names ps))
    {p : String × List (String × Scalar)} (hp : p ∈ ps)
include hl hp

theorem Layout.header : IsKey p.1 := hl.headers _ (List.mem_map_of_mem hp)

theorem Layout.key {q : String × Scalar} (hq : q ∈ p.2) : IsKey q.1 :=
  hl.keys _ (List.mem_map_of_mem hp) _ (List.mem_map_of_mem hq)

end Names

section Documents

def sectionChunks (p : String × List (String × Scalar)) : List (List Char × Option Line) :=
  (headerText p.1, some (.header [] p.1)) ::
    p.2.map fun q => (pairText q.1 q.2.written, some (.pair [] q.1 q.2.toTree))

def chunks : Sections → List (List Char × Option Line)
  | [] => []
  | [p] => sectionChunks p
  | p :: q :: ps => sectionChunks p ++ (['\n'], none) :: chunks (q :: ps)

theorem textOf_append (a b : List (List Char × Option Line)) :
    textOf (a ++ b) = textOf a ++ textOf b :=
  List.flatMap_append

theorem textOf_section (p : String × List (String × Scalar)) :
    textOf (sectionChunks p) = writtenSection p := by
  rw [textOf, sectionChunks, List.flatMap_cons, List.flatMap_map]
  rfl

theorem textOf_chunks (ps : Sections) :
    textOf (chunks ps) = List.intercalate ['\n'] (ps.map writtenSection) := by
  induction ps using chunks.induct with
  | case1 => rfl
  | case2 p => simpa [chunks, List.intercalate] using textOf_section p
  | case3 p q ps ih =>
    have hblank : textOf ((['\n'], none) :: chunks (q :: ps)) = '\n' :: textOf (chunks (q :: ps)) :=
      rfl
    rw [chunks, textOf_append, textOf_section, hblank, ih]
    simp [List.intercalate]

def linesOf (p : String × List (String × Scalar)) : Toml.Section :=
  (p.1, p.2.map fun q => (q.1, q.2.toTree))

theorem lines_chunks_eq (ps : Sections) :
    ((chunks ps).map (·.2)).filterMap id = (ps.map linesOf).flatMap Toml.Section.lines := by
  have hsection : ∀ p, ((sectionChunks p).map (·.2)).filterMap id = (linesOf p).lines := by
    intro p
    simp [sectionChunks, linesOf, Section.lines, Function.comp_def]
  induction ps using chunks.induct with
  | case1 => rfl
  | case2 p => simpa [chunks] using hsection p
  | case3 p q ps ih =>
    rw [chunks, List.map_append, List.filterMap_append, hsection]
    simpa using ih

theorem forall_chunks {P : List Char × Option Line → Prop} (hblank : P (['\n'], none))
    {ps : Sections}
    (h : ∀ p ∈ ps, ∀ c ∈ sectionChunks p, P c) : ∀ c ∈ chunks ps, P c := by
  induction ps using chunks.induct with
  | case1 => exact nofun
  | case2 p => exact h p List.mem_cons_self
  | case3 p q ps ih =>
    obtain ⟨hp, hrest⟩ := List.forall_mem_cons.1 h
    rw [chunks, List.forall_mem_append, List.forall_mem_cons]
    exact ⟨hp, hblank, ih hrest⟩

theorem mem_chunks {ps : Sections} {p : String × List (String × Scalar)} (hp : p ∈ ps)
    {c : List Char × Option Line} (hc : c ∈ sectionChunks p) : c ∈ chunks ps := by
  induction ps using chunks.induct with
  | case1 => cases hp
  | case2 q =>
    obtain rfl := List.mem_singleton.1 hp
    exact hc
  | case3 q r ps ih =>
    rw [chunks]
    rcases List.mem_cons.1 hp with rfl | hp
    · exact List.mem_append_left _ hc
    · exact List.mem_append_right _ (List.mem_cons_of_mem _ (ih hp))

variable {ps : Sections} (hl : Layout (names ps))
    {p : String × List (String × Scalar)} (hp : p ∈ ps)
include hl hp

theorem reads_or_stuck : ∀ c ∈ sectionChunks p, Reads c.1 c.2 ∨ Stuck c.1 := by
  refine List.forall_mem_cons.2 ⟨.inl (reads_header (hl.header hp)),
    List.forall_mem_map.2 fun q hq => ?_⟩
  have hkey := hl.key hp hq
  cases hfits : q.2.fits with
  | true => exact .inl (reads_pair hkey (stops_written q.2) (value_written hfits))
  | false => exact .inr (stuck_pair hkey (stops_written q.2) (value_written_none hfits))

theorem reads_section (hfits : ∀ q ∈ p.2, q.2.fits = true) :
    ∀ c ∈ sectionChunks p, Reads c.1 c.2 := by
  refine List.forall_mem_cons.2 ⟨reads_header (hl.header hp), List.forall_mem_map.2 fun q hq => ?_⟩
  exact reads_pair (hl.key hp hq) (stops_written q.2) (value_written (hfits q hq))

theorem stuck_section {q : String × Scalar} (hq : q ∈ p.2) (hfits : q.2.fits = false) :
    ∃ c ∈ chunks ps, Stuck c.1 := by
  refine ⟨_, mem_chunks hp (List.mem_cons_of_mem _ (List.mem_map_of_mem hq)), ?_⟩
  exact stuck_pair (hl.key hp hq) (stops_written q.2) (value_written_none hfits)

end Documents

/-- Written sections are read exactly if all their numbers fit. -/
theorem table_written {ps : Sections} (hl : Layout (names ps)) :
    table? (String.ofList (List.intercalate ['\n'] (ps.map writtenSection))) =
      if ∀ p ∈ ps, ∀ q ∈ p.2, q.2.fits = true then
        some (.table (ps.map fun p => (p.1, .table (p.2.map fun q => (q.1, q.2.toTree)))))
      else none := by
  rw [table?, String.toList_ofList, ← textOf_chunks]
  split
  · next hfits =>
    have hheaders : ((ps.map linesOf).map (·.1)).Nodup := by
      simpa [linesOf, names, Function.comp_def] using hl.headersOnce
    have hkeys : ∀ p ∈ ps.map linesOf, (p.2.map (·.1)).Nodup := List.forall_mem_map.2 fun p hp => by
      simpa [linesOf, Function.comp_def] using hl.keysOnce _ (List.mem_map_of_mem hp)
    obtain ⟨d, hd, hroot⟩ :=
      Option.map_eq_some_iff.1 (Draft.tree_sections (ps.map linesOf) hheaders hkeys)
    rw [lines_read (forall_chunks reads_newline fun p hp => reads_section hl hp (hfits p hp))]
    simp only [Option.bind_eq_bind, Option.bind_some, lines_chunks_eq, hd, hroot, List.map_map]
    rfl
  · next hfits =>
    simp only [Classical.not_forall] at hfits
    obtain ⟨p, hp, q, hq, hfits⟩ := hfits
    rw [lines_stuck (forall_chunks (.inl reads_newline) fun p => reads_or_stuck hl)
      (stuck_section hl hp hq (Bool.eq_false_iff.2 hfits))]
    rfl

end DualWrite.Settings
