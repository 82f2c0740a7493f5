import DualWrite.Proofs.Toml.Texts
import DualWrite.Toml.Reader

/-!
# Lines of a document come back

A header of one part, a pair under a key of one part, and a blank line are read as what they say, if
no blank begins what follows. A document of such lines is read as their list; at the first line that
cannot be read the document is refused.
-/
namespace DualWrite.Toml

open Settings (Tree)
open Text (Reading)
open Text.Reading

section Keys

def IsKey (k : String) : Prop := k.toList ≠ [] ∧ k.toList.all isKeyChar = true

instance (k : String) : Decidable (IsKey k) := inferInstanceAs (Decidable (_ ∧ _))

/-- What may follow a key and the blanks behind it. -/
structure EndsKey (c : Char) : Prop where
  blank : isSpace c = false
  letter : isKeyChar c = false
  point : c ≠ '.'

theorem endsKey_bracket : EndsKey ']' := ⟨by decide, by decide, by decide⟩

theorem endsKey_equals : EndsKey '=' := ⟨by decide, by decide, by decide⟩

theorem spaces_append (blanks : List Char) {rest : List Char}
    (hblanks : ∀ c ∈ blanks, isSpace c = true)
    (hrest : Stops isSpace rest) : spaces (blanks ++ rest) = some ((), rest) := by
  rw [spaces, bind_eq, run_append hblanks hrest]
  rfl

theorem spaces_of_stops {rest : List Char} (h : Stops isSpace rest) :
    spaces rest = some ((), rest) :=
  spaces_append [] nofun h

/-- A letter of a key begins no text, no header, no document and no run of blanks. -/
theorem isKeyChar_ne {c : Char} (hc : isKeyChar c = true) :
    c ≠ '"' ∧ c ≠ '\'' ∧ c ≠ '[' ∧ c ≠ '\uFEFF' ∧ isSpace c = false := by
  refine ⟨?_, ?_, ?_, ?_, Bool.eq_false_iff.2 fun hspace => ?_⟩
  iterate 4
    rintro rfl
    exact absurd hc (by decide)
  simp only [isSpace, Bool.or_eq_true, decide_eq_true_eq] at hspace
  rcases hspace with rfl | rfl <;> exact absurd hc (by decide)

variable {k : String} (hk : IsKey k)
include hk

theorem IsKey.cons : ∃ c cs, k.toList = c :: cs ∧ isKeyChar c = true := by
  obtain ⟨c, cs, hcs⟩ := List.exists_cons_of_ne_nil hk.1
  exact ⟨c, cs, hcs, List.all_eq_true.1 hk.2 c (hcs ▸ List.mem_cons_self)⟩

theorem simpleKey_bare {rest : List Char} (hrest : Stops isKeyChar rest) :
    simpleKey (k.toList ++ rest) = some (k, rest) := by
  obtain ⟨c, cs, hcs, hc⟩ := hk.cons
  obtain ⟨hquote, hmark, _⟩ := isKeyChar_ne hc
  have hbasic : basicText (k.toList ++ rest) = none := by
    rw [hcs]
    exact bind_none _ (mark_of_stops (stops_cons.2 (decide_eq_false hquote)))
  have hliteral : literalText (k.toList ++ rest) = none := by
    rw [hcs]
    exact bind_none _ (mark_of_stops (stops_cons.2 (decide_eq_false hmark)))
  rw [simpleKey, bind_eq, orElse_none _ hbasic, orElse_none _ hliteral,
    run1_append hk.1 (List.all_eq_true.1 hk.2) hrest, Option.bind_some, pure_eq,
    String.ofList_toList]

theorem key_bare (blanks : List Char) (hblanks : ∀ c ∈ blanks, isSpace c = true) {c : Char}
    (hc : EndsKey c) (rest : List Char) :
    key (k.toList ++ (blanks ++ c :: rest)) = some (([], k), c :: rest) := by
  have hspaces : spaces (blanks ++ c :: rest) = some ((), c :: rest) :=
    spaces_append blanks hblanks (stops_cons.2 hc.blank)
  have hend : Stops isKeyChar (blanks ++ c :: rest) := by
    cases blanks with
    | nil => exact stops_cons.2 hc.letter
    | cons b blanks =>
      refine stops_cons.2 (Bool.eq_false_iff.2 fun hb => ?_)
      have hspace := hblanks b List.mem_cons_self
      rw [(isKeyChar_ne hb).2.2.2.2] at hspace
      cases hspace
  have hstart : spaces (k.toList ++ (blanks ++ c :: rest)) =
      some ((), k.toList ++ (blanks ++ c :: rest)) := by
    obtain ⟨d, ds, hds, hd⟩ := hk.cons
    rw [hds]
    exact spaces_of_stops (stops_cons.2 (isKeyChar_ne hd).2.2.2.2)
  have hmany : repeated (do mark '.'; spaces; let k ← simpleKey; spaces; return k) (c :: rest) =
      ([], c :: rest) :=
    repeated_end (bind_none _ (mark_of_stops (stops_cons.2 (decide_eq_false hc.point))))
  simp only [key, separated, bind_eq, hstart, simpleKey_bare hk hend, hspaces,
    Option.bind_some, pure_eq, many, hmany]
  rfl

end Keys

section Lines

theorem lineTrail_newline (rest : List Char) : lineTrail ('\n' :: rest) = some ((), rest) := rfl

def headerText (k : String) : List Char := '[' :: k.toList ++ [']', '\n']

def pairText (k : String) (v : List Char) : List Char := k.toList ++ " = ".toList ++ v ++ ['\n']

variable {k : String} (hk : IsKey k)
include hk

theorem line_header {rest : List Char} (hrest : Stops isSpace rest) :
    line (headerText k ++ rest) = some (some (.header [] k), rest) := by
  have hlist : listHeaderLine (headerText k ++ rest) = none := by
    obtain ⟨c, cs, hcs, hc⟩ := hk.cons
    have hword : word ['[', '['] (headerText k ++ rest) = none := by
      rw [headerText, hcs]
      exact if_neg (isKeyChar_ne hc).2.2.1
    exact bind_none _ hword
  have hheader : headerLine (headerText k ++ rest) = some (.header [] k, rest) := by
    have htext : headerText k ++ rest = '[' :: (k.toList ++ ([] ++ ']' :: '\n' :: rest)) := by
      simp [headerText]
    have hkey := key_bare hk [] nofun endsKey_bracket ('\n' :: rest)
    rw [htext]
    simp only [headerLine, bind_eq, mark_cons, Option.bind_some, hkey, lineTrail_newline, pure_eq]
  have hsome : (some <$> (listHeaderLine <|> headerLine <|> pairLine)) (headerText k ++ rest) =
      some (some (.header [] k), rest) := by
    rw [map_eq, orElse_none _ hlist, orElse_some _ hheader]
    rfl
  rw [line, seqLeft_eq, orElse_some _ hsome, Option.bind_some, spaces_of_stops hrest]
  rfl

/-- A line that begins with a letter of a key is a pair or nothing. -/
theorem line_key (cs : List Char) : line (k.toList ++ cs) =
    ((pairLine (k.toList ++ cs)).bind fun p => (spaces p.2).map fun q => (some p.1, q.2)) := by
  obtain ⟨c, ds, hds, hc⟩ := hk.cons
  obtain ⟨_, _, hbracket, _, hspace⟩ := isKeyChar_ne hc
  have hmark : ∀ {x : Char}, isKeyChar x = false → mark x (k.toList ++ cs) = none := by
    intro x hx
    have hne : c ≠ x := by
      rintro rfl
      rw [hc] at hx
      cases hx
    rw [hds, List.cons_append, mark_of_stops (stops_cons.2 (decide_eq_false hne))]
  have hlist : listHeaderLine (k.toList ++ cs) = none := by
    have hword : word ['[', '['] (k.toList ++ cs) = none := by
      rw [hds]
      exact if_neg hbracket
    exact bind_none _ hword
  have hheader : headerLine (k.toList ++ cs) = none := bind_none _ (hmark (by decide))
  rw [line, seqLeft_eq]
  rcases hpair : pairLine (k.toList ++ cs) with _ | ⟨l, rest⟩
  · have hsome : (some <$> (listHeaderLine <|> headerLine <|> pairLine))
      (k.toList ++ cs) = none := by
      rw [map_eq, orElse_none _ hlist, orElse_none _ hheader, hpair]
      rfl
    have hcomment : comment (k.toList ++ cs) = none := bind_none _ (hmark (by decide))
    have hline : newline (k.toList ++ cs) = none := by
      rw [hds]
      refine newline_other ?_ ?_ _ <;>
        rintro rfl <;> exact absurd hc (by decide)
    rw [orElse_none _ hsome, orElse_none _ (seqRight_none _ (seqRight_none _ hcomment)),
      seqRight_none _ hline]
    rfl
  · have hsome : (some <$> (listHeaderLine <|> headerLine <|> pairLine)) (k.toList ++ cs) =
        some (some l, rest) := by
      rw [map_eq, orElse_none _ hlist, orElse_none _ hheader, hpair]
      rfl
    rw [orElse_some _ hsome]
    rfl

theorem pairLine_bare {v : List Char} (hv : ∀ r, Stops isSpace (v ++ '\n' :: r))
    (rest : List Char) : pairLine (pairText k v ++ rest) =
      (value (depthLimit - 1) (v ++ '\n' :: rest)).bind fun p =>
        (lineTrail p.2).map fun q => (.pair [] k p.1, q.2) := by
  have htext : pairText k v ++ rest = k.toList ++ ([' '] ++ '=' :: ' ' :: (v ++ '\n' :: rest)) := by
    simp [pairText]
  have hkey := key_bare hk [' '] (by simp [isSpace]) endsKey_equals (' ' :: (v ++ '\n' :: rest))
  have hspaces : spaces (' ' :: (v ++ '\n' :: rest)) = some ((), v ++ '\n' :: rest) :=
    spaces_append [' '] (by simp [isSpace]) (hv rest)
  rw [htext]
  simp only [pairLine, bind_eq, hkey, Option.bind_some, mark_cons, hspaces, pure_eq]
  rcases value (depthLimit - 1) (v ++ '\n' :: rest) with _ | ⟨t, r⟩
  · rfl
  · simp only [Option.bind_some]
    rcases lineTrail r with _ | q <;> rfl

theorem line_pair {v rest : List Char} {t : Tree} (hv : ∀ r, Stops isSpace (v ++ '\n' :: r))
    (hvalue : value (depthLimit - 1) (v ++ '\n' :: rest) = some (t, '\n' :: rest))
    (hrest : Stops isSpace rest) :
    line (pairText k v ++ rest) = some (some (.pair [] k t), rest) := by
  have hpair := pairLine_bare hk hv rest
  rw [hvalue, Option.bind_some, lineTrail_newline] at hpair
  have hline := line_key hk (" = ".toList ++ v ++ ['\n'] ++ rest)
  rw [pairText] at hpair ⊢
  simp only [List.append_assoc] at hpair hline ⊢
  rw [hline, hpair, Option.map_some, Option.bind_some, spaces_of_stops hrest]
  rfl

theorem line_pair_none {v rest : List Char} (hv : ∀ r, Stops isSpace (v ++ '\n' :: r))
    (hvalue : value (depthLimit - 1) (v ++ '\n' :: rest) = none) :
    line (pairText k v ++ rest) = none := by
  have hpair := pairLine_bare hk hv rest
  rw [hvalue, Option.bind_none] at hpair
  have hline := line_key hk (" = ".toList ++ v ++ ['\n'] ++ rest)
  rw [pairText] at hpair ⊢
  simp only [List.append_assoc] at hpair hline ⊢
  rw [hline, hpair, Option.bind_none]

end Lines

section Documents

theorem line_newline {rest : List Char} (hrest : Stops isSpace rest) :
    line ('\n' :: rest) = some (none, rest) := by
  have hblank : ((some <$> (listHeaderLine <|> headerLine <|> pairLine))
      <|> (comment *> (newline <|> atEnd) *> pure none)
      <|> (newline *> pure none) : Reading (Option Line)) ('\n' :: rest) = some (none, rest) := rfl
  rw [line, seqLeft_eq, hblank, Option.bind_some, spaces_of_stops hrest]
  rfl

def isMargin (c : Char) : Bool := isSpace c || c = '\uFEFF'

theorem stops_space {rest : List Char} (h : Stops isMargin rest) :
    Stops isSpace rest := fun c r hc =>
  (Bool.or_eq_false_iff.1 (h c r hc)).1

/-- A chunk of a document that begins somewhere on a line of its own. -/
def Begins (cs : List Char) : Prop := cs ≠ [] ∧ Stops isMargin cs

theorem Begins.append {cs : List Char} (h : Begins cs) (rest : List Char) :
    Begins (cs ++ rest) := by
  obtain ⟨c, cs, rfl⟩ := List.exists_cons_of_ne_nil h.1
  exact ⟨nofun, stops_cons.2 (stops_cons.1 h.2)⟩

theorem Begins.of_key {k : String} (hk : IsKey k) (rest : List Char) :
    Begins (k.toList ++ rest) := by
  obtain ⟨c, cs, hcs, hc⟩ := hk.cons
  obtain ⟨_, _, _, hmark, hspace⟩ := isKeyChar_ne hc
  rw [hcs]
  exact ⟨nofun, stops_cons.2 (by simp [isMargin, hspace, hmark])⟩

/-- A chunk that is taken for one line, whatever line comes next. -/
structure Reads (cs : List Char) (l : Option Line) : Prop where
  begins : Begins cs
  read : ∀ rest, Stops isSpace rest → line (cs ++ rest) = some (l, rest)

structure Stuck (cs : List Char) : Prop where
  begins : Begins cs
  stuck : ∀ rest, line (cs ++ rest) = none

theorem reads_newline : Reads ['\n'] none where
  begins := ⟨nofun, stops_cons.2 (by decide)⟩
  read _ := line_newline

theorem reads_header {k : String} (hk : IsKey k) : Reads (headerText k) (some (.header [] k)) where
  begins := ⟨nofun, stops_cons.2 (by decide)⟩
  read _ := line_header hk

section Pairs
variable {k : String} (hk : IsKey k) {v : List Char} (hv : ∀ r, Stops isSpace (v ++ '\n' :: r))
include hk hv

theorem reads_pair {t : Tree}
    (hvalue : ∀ rest, value (depthLimit - 1) (v ++ '\n' :: rest) = some (t, '\n' :: rest)) :
    Reads (pairText k v) (some (.pair [] k t)) where
  begins := by
    rw [pairText, List.append_assoc, List.append_assoc]
    exact .of_key hk _
  read rest := line_pair hk hv (hvalue rest)

theorem stuck_pair (hvalue : ∀ rest, value (depthLimit - 1) (v ++ '\n' :: rest) = none) :
    Stuck (pairText k v) where
  begins := by
    rw [pairText, List.append_assoc, List.append_assoc]
    exact .of_key hk _
  stuck rest := line_pair_none hk hv (hvalue rest)

end Pairs

/-- The text of chunks, each of which stands beside the line that it is taken for. -/
def textOf (chunks : List (List Char × Option Line)) : List Char := chunks.flatMap (·.1)

variable {chunks : List (List Char × Option Line)}

theorem textOf_cons (p : List Char × Option Line) (ps : List (List Char × Option Line))
    (rest : List Char) : textOf (p :: ps) ++ rest = p.1 ++ (textOf ps ++ rest) := by
  rw [textOf, List.flatMap_cons, List.append_assoc]
  rfl

theorem textOf_stops (h : ∀ p ∈ chunks, Reads p.1 p.2) {rest : List Char}
    (hrest : Stops isMargin rest) : Stops isMargin (textOf chunks ++ rest) := by
  cases chunks with
  | nil => exact hrest
  | cons p ps =>
    rw [textOf_cons]
    exact ((h p List.mem_cons_self).begins.append _).2

theorem repeated_chunks (h : ∀ p ∈ chunks, Reads p.1 p.2) {rest : List Char}
    (hrest : Stops isMargin rest) (hline : line rest = none) :
    repeated line (textOf chunks ++ rest) = (chunks.map (·.2), rest) := by
  induction chunks with
  | nil => exact repeated_end hline
  | cons p ps ih =>
    obtain ⟨hp, hps⟩ := List.forall_mem_cons.1 h
    have hread := hp.read (textOf ps ++ rest) (stops_space (textOf_stops hps hrest))
    rw [textOf_cons, repeated_step hread (length_lt_append (List.length_pos_iff.2 hp.begins.1) _),
      ih hps]
    rfl

/-- Lines are read up to the first chunk that is none. -/
theorem lines_chunks (h : ∀ p ∈ chunks, Reads p.1 p.2) {rest : List Char}
    (hrest : Stops isMargin rest) (hline : line rest = none) :
    whole? lines (textOf chunks ++ rest) = if rest = [] then some (chunks.map (·.2)) else none := by
  have hstops := textOf_stops h hrest
  have hmark : Stops (· = '\uFEFF') (textOf chunks ++ rest) := fun c r hc =>
    (Bool.or_eq_false_iff.1 (hstops c r hc)).2
  have hmany : many line (textOf chunks ++ rest) = some (chunks.map (·.2), rest) := by
    rw [many, repeated_chunks h hrest hline]
  have hlines : lines (textOf chunks ++ rest) =
      (atEnd rest).map fun p => (chunks.map (·.2), p.2) := by
    rw [lines, bind_eq, orElse_none _ (mark_of_stops hmark), pure_eq, Option.bind_some, bind_eq,
      spaces_of_stops (stops_space hstops), Option.bind_some, bind_eq, hmany,
      Option.bind_some, bind_eq]
    cases atEnd rest <;> rfl
  rw [whole?, hlines]
  cases rest <;> rfl

theorem lines_read (h : ∀ p ∈ chunks, Reads p.1 p.2) :
    whole? lines (textOf chunks) = some (chunks.map (·.2)) := by
  have hlines := lines_chunks h (stops_nil _) rfl
  rwa [List.append_nil, if_pos rfl] at hlines

/-- A document is refused if one of its chunks is no line. -/
theorem lines_stuck (h : ∀ p ∈ chunks, Reads p.1 p.2 ∨ Stuck p.1)
    (hstuck : ∃ p ∈ chunks, Stuck p.1) : whole? lines (textOf chunks) = none := by
  have hfirst : ∃ good rest, textOf chunks = textOf good ++ rest ∧ (∀ p ∈ good, Reads p.1 p.2) ∧
      Begins rest ∧ line rest = none := by
    induction chunks with
    | nil => exact absurd hstuck.choose_spec.1 List.not_mem_nil
    | cons p ps ih =>
      obtain ⟨hp, hps⟩ := List.forall_mem_cons.1 h
      by_cases hfirst : Stuck p.1
      · exact ⟨[], p.1 ++ textOf ps, rfl, nofun, hfirst.begins.append _, hfirst.stuck _⟩
      · obtain ⟨q, hq, hstuck⟩ := hstuck
        rcases List.mem_cons.1 hq with rfl | hq
        · exact absurd hstuck hfirst
        · obtain ⟨good, rest, htext, hgood, hrest⟩ := ih hps ⟨q, hq, hstuck⟩
          refine ⟨p :: good, rest, ?_, List.forall_mem_cons.2 ⟨hp.resolve_right hfirst, hgood⟩,
            hrest⟩
          rw [textOf_cons, ← htext]
          rfl
  obtain ⟨good, rest, htext, hgood, hrest, hline⟩ := hfirst
  rw [htext, lines_chunks hgood hrest.2 hline, if_neg hrest.1]

end Documents

end DualWrite.Toml
