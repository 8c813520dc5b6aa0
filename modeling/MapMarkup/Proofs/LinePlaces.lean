import Mathlib.Data.List.DropRight
import Mathlib.Data.Prod.Lex
import MapMarkup.Proofs.StylePlaces

/-!
# The places of a line

A line of a document is cut out of it by what is above it, its visible text, the line ends behind that and what is below
(`IsLine`). Every number that is not too large is that of a line (`exists_isLine`), and its columns lead to places in
the visible text or to the end of it (`IsLine.offsetAt_eq`). So the way from line and column to an offset undoes
counting up to the end of the visible text (`offsetAt_after_eq_min`), and it never turns two places round
(`offsetAt_mono`). The stretch of a diagnostic therefore starts at its hint whenever the hint is in the document and not
behind the locator (`Diagnostic.exists_span?_of_le`).
-/

namespace MapMarkup

/-- The document is cut around its line number `n`: there are the lines above it, its visible text, the carriage returns
and the line feed that end it, and the lines below. Only the last line has no line feed. -/
structure IsLine (source : List Char) (n : Nat) (above visible ends below : List Char) : Prop where
  source_eq : source = above ++ visible ++ ends ++ below
  above_ends : above = [] ∨ ∃ before, above = before ++ ['\n']
  number_eq : n = above.count '\n' + 1
  not_mem : '\n' ∉ visible
  last_ne : visible.getLast? ≠ some '\r'
  ends_eq : ∃ k, ends = List.replicate k '\r' ++ ['\n'] ∨ ends = List.replicate k '\r' ∧ below = []

/-- The document has a line of this number: lines are counted from 1, and each line feed makes one line more. -/
def HasLine (source : List Char) (n : Nat) : Prop :=
  n ≠ 0 ∧ n ≤ source.count '\n' + 1

/-! ### Cutting out a line -/

theorem utf8Size_le_of_isPrefix {cs ds : List Char} (h : cs <+: ds) : utf8Size cs ≤ utf8Size ds := by
  obtain ⟨rest, rfl⟩ := h
  rw [utf8Size_append]
  exact Nat.le_add_right _ _

/-- Taking away the line ends behind the visible text. -/
theorem rdropWhile_lineEnds {visible ends : List Char} (hmem : '\n' ∉ visible) (hlast : visible.getLast? ≠ some '\r')
    (hends : ∀ c ∈ ends, c = '\r' ∨ c = '\n') :
    (visible ++ ends).rdropWhile (fun c => c = '\r' || c = '\n') = visible := by
  have hdrop : ∀ c ∈ ends.reverse, (c = '\r' || c = '\n') = true := by
    intro c hc
    simpa using hends c (List.mem_reverse.1 hc)
  have hkeep : visible.reverse.dropWhile (fun c => c = '\r' || c = '\n') = visible.reverse := by
    rcases hreverse : visible.reverse with _ | ⟨c, cs⟩
    · rfl
    · have hc : visible.getLast? = some c := by
        rw [← List.head?_reverse, hreverse]
        rfl
      have hreturn : c ≠ '\r' := fun h => hlast (h ▸ hc)
      have hfeed : c ≠ '\n' := fun h => hmem (h ▸ List.mem_of_getLast? hc)
      exact List.dropWhile_cons_of_neg (by simp [hreturn, hfeed])
  rw [List.rdropWhile, List.reverse_append, List.dropWhile_append_of_pos hdrop, hkeep, List.reverse_reverse]

/-- Behind a line feed, or at its start, a text is cut around its first line. -/
private theorem exists_isLine_of_above {above : List Char} (habove : above = [] ∨ ∃ before, above = before ++ ['\n'])
    (rest : List Char) :
    ∃ visible ends below, IsLine (above ++ rest) (above.count '\n' + 1) above visible ends below := by
  -- The visible text is what is left of the line when the carriage returns at its end are taken away.
  have hcut : ∀ line : List Char, '\n' ∉ line → ∃ visible k, line = visible ++ List.replicate k '\r' ∧
      '\n' ∉ visible ∧ visible.getLast? ≠ some '\r' := by
    intro line hline
    refine ⟨line.rdropWhile (· = '\r'), (line.rtakeWhile (· = '\r')).length, ?_, ?_, ?_⟩
    · have hreturns : line.rtakeWhile (· = '\r') = List.replicate (line.rtakeWhile (· = '\r')).length '\r' :=
        List.eq_replicate_of_mem fun c hc => by simpa using List.mem_rtakeWhile_imp hc
      rw [← hreturns, List.rdropWhile_append_rtakeWhile]
    · exact fun h => hline ((List.rdropWhile_prefix _ _).subset h)
    · intro hlast
      have hne : line.rdropWhile (· = '\r') ≠ [] := by
        rintro hnil
        simp [hnil] at hlast
      rw [List.getLast?_eq_some_getLast hne, Option.some.injEq] at hlast
      exact List.rdropWhile_last_not _ _ hne (by simp [hlast])
  by_cases hfeed : '\n' ∈ rest
  · obtain ⟨line, below, rfl, hline⟩ := List.eq_append_cons_of_mem hfeed
    obtain ⟨visible, k, rfl, hmem, hlast⟩ := hcut line hline
    exact ⟨visible, List.replicate k '\r' ++ ['\n'], below, by simp, habove, rfl, hmem, hlast, k, .inl rfl⟩
  · obtain ⟨visible, k, rfl, hmem, hlast⟩ := hcut rest hfeed
    exact ⟨visible, List.replicate k '\r', [], by simp, habove, rfl, hmem, hlast, k, .inr ⟨rfl, rfl⟩⟩

private theorem exists_above (source : List Char) {k : Nat} (h : k ≤ source.count '\n') :
    ∃ above rest, source = above ++ rest ∧ (above = [] ∨ ∃ before, above = before ++ ['\n']) ∧
      above.count '\n' = k := by
  induction k with
  | zero => exact ⟨[], source, rfl, .inl rfl, rfl⟩
  | succ k ih =>
    obtain ⟨above, rest, rfl, -, hcount⟩ := ih (by omega)
    have hfeed : '\n' ∈ rest := by
      rw [List.count_append] at h
      exact List.count_pos_iff.1 (by omega)
    obtain ⟨line, below, rfl, hline⟩ := List.eq_append_cons_of_mem hfeed
    refine ⟨above ++ line ++ ['\n'], below, by simp, .inr ⟨_, rfl⟩, ?_⟩
    rw [List.count_append, List.count_append, hcount, List.count_eq_zero.2 hline]
    rfl

theorem exists_isLine {source : List Char} {n : Nat} (h : HasLine source n) :
    ∃ above visible ends below, IsLine source n above visible ends below := by
  obtain ⟨k, rfl⟩ := Nat.exists_eq_succ_of_ne_zero h.1
  obtain ⟨above, rest, rfl, habove, rfl⟩ := exists_above source (Nat.le_of_succ_le_succ h.2)
  obtain ⟨visible, ends, below, hline⟩ := exists_isLine_of_above habove rest
  exact ⟨above, visible, ends, below, hline⟩

/-! ### Columns of a line -/

namespace IsLine

variable {source above visible ends below : List Char} {n : Nat}

theorem hasLine (h : IsLine source n above visible ends below) : HasLine source n := by
  have hcount := congrArg (List.count '\n') h.source_eq
  simp only [List.count_append] at hcount
  refine ⟨?_, ?_⟩ <;> rw [h.number_eq] <;> omega

theorem mem_ends (h : IsLine source n above visible ends below) {c : Char} (hc : c ∈ ends) : c = '\r' ∨ c = '\n' := by
  obtain ⟨k, rfl | ⟨rfl, -⟩⟩ := h.ends_eq
  · rcases List.mem_append.1 hc with hc | hc
    · exact .inl (List.eq_of_mem_replicate hc)
    · exact .inr (List.mem_singleton.1 hc)
  · exact .inl (List.eq_of_mem_replicate hc)

/-- The line in the list of lines. -/
theorem exists_getElem?_linesOf (h : IsLine source n above visible ends below) :
    ∃ l, (linesOf source)[n - 1]? = some l ∧ l.start = utf8Size above ∧ l.visible = visible := by
  obtain ⟨k, hends⟩ := h.ends_eq
  have hmem : '\n' ∉ visible ++ List.replicate k '\r' := by simp [h.not_mem]
  have hline : (Position.start.after (above ++ (visible ++ List.replicate k '\r'))).line = n := by
    rw [Position.line_after, List.count_append, List.count_eq_zero.2 hmem, h.number_eq]
    show 1 + _ = _
    omega
  have hafter : ∃ after, source = above ++ (visible ++ List.replicate k '\r') ++ after ∧
      after.takeWhile (· ≠ '\n') = [] := by
    rcases hends with rfl | ⟨rfl, rfl⟩
    · exact ⟨'\n' :: below, by simp [h.source_eq], by simp⟩
    · exact ⟨[], by simp [h.source_eq], rfl⟩
  obtain ⟨after, hsource, hnone⟩ := hafter
  have hget := getElem?_linesOf h.above_ends hmem after
  rw [hline, hnone, List.append_nil, ← hsource] at hget
  refine ⟨_, hget, rfl, rdropWhile_lineEnds h.not_mem h.last_ne fun c hc => ?_⟩
  exact .inl (List.eq_of_mem_replicate hc)

/-- A column leads to the place behind as many characters of the visible text, if there are so many. -/
theorem offsetAt_eq (h : IsLine source n above visible ends below) (column : Nat) :
    offsetAt source n column = some (utf8Size (above ++ visible.take (column - 1))) := by
  obtain ⟨l, hget, hstart, hvisible⟩ := h.exists_getElem?_linesOf
  rw [offsetAt, if_neg h.hasLine.1, hget, Option.map_some, hstart, Line.bytesBefore, hvisible, utf8Size_append]

/-- A line ends in front of the lines below it. -/
private theorem size_le {above' visible' ends' below' : List Char} {n' : Nat}
    (h : IsLine source n above visible ends below)
    (h' : IsLine source n' above' visible' ends' below') (hn : n < n') :
    utf8Size (above ++ visible) ≤ utf8Size above' := by
  have hsource : (above ++ visible) ++ (ends ++ below) = above' ++ (visible' ++ ends' ++ below') := by
    rw [← List.append_assoc, ← h.source_eq, h'.source_eq]
    simp
  rcases List.append_eq_append_iff.1 hsource with ⟨mid, rfl, -⟩ | ⟨mid, hmid, -⟩
  · exact utf8Size_le_of_isPrefix (List.prefix_append _ mid)
  · -- Otherwise all of the line feeds above the later line would be above the earlier one.
    have hcount := congrArg (List.count '\n') hmid
    rw [List.count_append, List.count_append, List.count_eq_zero.2 h.not_mem] at hcount
    have hnumber := h.number_eq
    have hnumber' := h'.number_eq
    omega

end IsLine

private theorem length_linesFrom (start : Nat) (cs : List Char) : (linesFrom start cs).length = cs.count '\n' + 1 := by
  induction cs generalizing start with
  | nil => rfl
  | cons c cs ih =>
    obtain ⟨others, hothers⟩ := linesFrom_eq_cons (start + c.utf8Size) cs
    have hlength := ih (start + c.utf8Size)
    by_cases hc : c = '\n'
    · subst hc
      rw [linesFrom_cons_lineFeed, List.length_cons, ih, List.count_cons_self]
    · rw [linesFrom_cons_of_ne hc hothers, List.count_cons_of_ne hc, ← hlength, hothers]
      rfl

theorem exists_offsetAt_iff {source : List Char} {line column : Nat} :
    (∃ o, offsetAt source line column = some o) ↔ HasLine source line := by
  constructor
  · rintro ⟨o, ho⟩
    unfold offsetAt at ho
    split at ho
    · simp at ho
    · rename_i hzero
      obtain ⟨l, hl, -⟩ := Option.map_eq_some_iff.1 ho
      obtain ⟨hlt, -⟩ := List.getElem?_eq_some_iff.1 hl
      rw [linesOf, length_linesFrom] at hlt
      exact ⟨hzero, by omega⟩
  · intro h
    obtain ⟨above, visible, ends, below, hline⟩ := exists_isLine h
    exact ⟨_, hline.offsetAt_eq column⟩

/-- The line that a place is in, with what is in front of the place in this line; the column counts that. -/
theorem exists_isLine_of_place (before after : List Char) :
    let p := Position.start.after before
    ∃ above start visible ends below, before = above ++ start ∧ p.column - 1 = start.length ∧
      IsLine (before ++ after) p.line above visible ends below ∧ start ++ after = visible ++ (ends ++ below) := by
  intro p
  obtain ⟨above, start, rfl, hstart, habove⟩ := exists_lineStart before
  have hnumber : p.line = above.count '\n' + 1 := by
    show (Position.start.after _).line = _
    rw [Position.line_after, List.count_append, List.count_eq_zero.2 hstart]
    exact Nat.add_comm _ _
  have hcolumn : p.column - 1 = start.length := by
    show (Position.start.after _).column - 1 = _
    rw [Position.column_after_start habove hstart, Nat.add_sub_cancel]
  obtain ⟨visible, ends, below, hline⟩ := exists_isLine_of_above habove (start ++ after)
  rw [← List.append_assoc, ← hnumber] at hline
  have htext : start ++ after = visible ++ (ends ++ below) := by
    have hsource := hline.source_eq
    simp only [List.append_assoc] at hsource
    exact List.append_cancel_left hsource
  exact ⟨above, start, visible, ends, below, rfl, hcolumn, hline, htext⟩

/-- Of two texts with which a text starts, the one with fewer characters has fewer bytes. -/
theorem length_lt_iff_utf8Size_lt {a b c d : List Char} (h : a ++ b = c ++ d) :
    a.length < c.length ↔ utf8Size a < utf8Size c := by
  have hpos : ∀ mid : List Char, 0 < mid.length ↔ 0 < utf8Size mid := by
    intro mid
    cases mid with
    | nil => simp
    | cons x mid =>
      have := x.utf8Size_pos
      simp only [List.length_cons, utf8Size_cons]
      omega
  rcases List.append_eq_append_iff.1 h with ⟨mid, rfl, -⟩ | ⟨mid, rfl, -⟩
  · have hmid := hpos mid
    rw [List.length_append, utf8Size_append]
    omega
  · rw [List.length_append, utf8Size_append]
    omega

/-- The characters of the visible text in front of a place end at the place or with the visible text. -/
theorem utf8Size_take_eq_min {start after visible rest : List Char} (h : start ++ after = visible ++ rest)
    (above : List Char) :
    utf8Size (above ++ visible.take start.length) = min (utf8Size (above ++ start)) (utf8Size (above ++ visible)) := by
  rcases List.append_eq_append_iff.1 h with ⟨mid, rfl, -⟩ | ⟨mid, rfl, -⟩
  · rw [List.take_left, ← List.append_assoc, utf8Size_append _ mid]
    omega
  · rw [List.take_of_length_le (by simp), ← List.append_assoc, utf8Size_append _ mid]
    omega

/-- Line and column of a place lead back to it, or to the end of the visible text if the place is behind that. -/
theorem offsetAt_after_eq_min (before after : List Char) :
    let p := Position.start.after before
    ∃ above visible ends below, IsLine (before ++ after) p.line above visible ends below ∧
      offsetAt (before ++ after) p.line p.column = some (min (utf8Size before) (utf8Size (above ++ visible))) := by
  intro p
  obtain ⟨above, start, visible, ends, below, rfl, hcolumn, hline, htext⟩ := exists_isLine_of_place before after
  refine ⟨above, visible, ends, below, hline, ?_⟩
  rw [hline.offsetAt_eq, hcolumn, utf8Size_take_eq_min htext]

/-- A line and a column lead to a place between two characters of the document, which is in that line. -/
theorem exists_append_of_offsetAt {source : List Char} {line column o : Nat}
    (h : offsetAt source line column = some o) :
    ∃ before after, source = before ++ after ∧ o = utf8Size before ∧ (Position.start.after before).line = line := by
  obtain ⟨above, visible, ends, below, hline⟩ := exists_isLine (exists_offsetAt_iff.1 ⟨o, h⟩)
  obtain rfl := Option.some.inj ((hline.offsetAt_eq column).symm.trans h)
  refine ⟨_, visible.drop (column - 1) ++ (ends ++ below), ?_, rfl, ?_⟩
  · rw [List.append_assoc above, ← List.append_assoc (visible.take _), List.take_append_drop, hline.source_eq]
    simp
  · have hnone : '\n' ∉ visible.take (column - 1) := fun hmem => hline.not_mem (List.mem_of_mem_take hmem)
    rw [Position.line_after, List.count_append, List.count_eq_zero.2 hnone, hline.number_eq]
    exact Nat.add_comm _ _

/-- What is not behind a place in lines and columns is not behind it in bytes. -/
theorem offsetAt_mono {source : List Char} {line column line' column' o o' : Nat}
    (h : toLex (line, column) ≤ toLex (line', column')) (ho : offsetAt source line column = some o)
    (ho' : offsetAt source line' column' = some o') : o ≤ o' := by
  obtain ⟨above, visible, ends, below, hline⟩ := exists_isLine (exists_offsetAt_iff.1 ⟨o, ho⟩)
  obtain ⟨above', visible', ends', below', hline'⟩ := exists_isLine (exists_offsetAt_iff.1 ⟨o', ho'⟩)
  obtain rfl := Option.some.inj ((hline.offsetAt_eq column).symm.trans ho)
  rcases Prod.Lex.toLex_le_toLex.1 h with hlt | ⟨heq, hle⟩
  · obtain rfl := Option.some.inj ((hline'.offsetAt_eq column').symm.trans ho')
    have hvisible : above ++ visible.take (column - 1) <+: above ++ visible :=
      (List.prefix_append_right_inj above).2 (List.take_prefix _ visible)
    calc utf8Size (above ++ visible.take (column - 1))
        ≤ utf8Size (above ++ visible) := utf8Size_le_of_isPrefix hvisible
      _ ≤ utf8Size above' := hline.size_le hline' hlt
      _ ≤ utf8Size (above' ++ visible'.take (column' - 1)) := utf8Size_le_of_isPrefix (List.prefix_append above' _)
  · obtain rfl : line = line' := heq
    obtain rfl := Option.some.inj ((hline.offsetAt_eq column').symm.trans ho')
    have htake : visible.take (column - 1) <+: visible.take (column' - 1) :=
      List.take_prefix_take_left (Nat.sub_le_sub_right hle 1)
    exact utf8Size_le_of_isPrefix ((List.prefix_append_right_inj above).2 htake)

/-- Places of lines that exist are found, and in the order of lines and columns. -/
theorem exists_offsetAt_le {source : List Char} {line column line' column' : Nat} (hline : HasLine source line)
    (hline' : HasLine source line') (hle : toLex (line, column) ≤ toLex (line', column')) :
    ∃ o o', offsetAt source line column = some o ∧ offsetAt source line' column' = some o' ∧ o ≤ o' := by
  obtain ⟨o, ho⟩ := exists_offsetAt_iff.2 hline
  obtain ⟨o', ho'⟩ := exists_offsetAt_iff.2 hline'
  exact ⟨o, o', ho, ho', offsetAt_mono hle ho ho'⟩

/-! ### Hints -/

namespace Diagnostic

variable {source : List Char} {d : Diagnostic} {hint : StartHint} {span : Span}

theorem startOffset_of_hint (source : List Char) (hstart : d.start = some hint) (high : Nat) :
    (∃ low ≤ high, offsetAt source hint.line (hint.column + hint.columnOffset) = some low ∧
      d.startOffset source high = low) ∨
    (∀ low ≤ high, offsetAt source hint.line (hint.column + hint.columnOffset) ≠ some low) ∧
      d.startOffset source high = high := by
  unfold startOffset
  rw [hstart]
  dsimp only
  cases hoffset : offsetAt source hint.line (hint.column + hint.columnOffset) with
  | none => exact .inr ⟨by simp, rfl⟩
  | some low =>
    dsimp only
    by_cases hle : low ≤ high
    · exact .inl ⟨low, hle, rfl, if_pos hle⟩
    · refine .inr ⟨?_, if_neg hle⟩
      rintro low' hle' hlow
      exact hle (Option.some.inj hlow ▸ hle')

private theorem exists_of_span? (h : d.span? source = some span) :
    offsetAt source d.locator.line d.locator.column = some span.high ∧ span.low = d.startOffset source span.high := by
  obtain ⟨high, hhigh, rfl⟩ := Option.map_eq_some_iff.1 h
  exact ⟨hhigh, rfl⟩

/-- A stretch with a hint starts at the hint if both lines are in the document and the hint is not behind the locator. -/
theorem exists_span?_of_le (hstart : d.start = some hint) (hline : HasLine source hint.line)
    (hline' : HasLine source d.locator.line)
    (hle : toLex (hint.line, hint.column + hint.columnOffset) ≤ toLex (d.locator.line, d.locator.column)) :
    ∃ low high, offsetAt source hint.line (hint.column + hint.columnOffset) = some low ∧
      offsetAt source d.locator.line d.locator.column = some high ∧ d.span? source = some ⟨low, high⟩ := by
  obtain ⟨low, high, hlow, hhigh, hlowhigh⟩ := exists_offsetAt_le hline hline' hle
  exact ⟨low, high, hlow, hhigh, by rw [span?_of_high hhigh, startOffset_of_low hstart hlow hlowhigh]⟩

/-- A stretch that does not start at its hint is empty, because the hint is behind the locator or on a line that the
document does not have. -/
theorem low_eq_high_of_span? (hstart : d.start = some hint) (hspan : d.span? source = some span)
    (hlow : offsetAt source hint.line (hint.column + hint.columnOffset) ≠ some span.low) :
    span.low = span.high ∧ offsetAt source d.locator.line d.locator.column = some span.high ∧
      (toLex (d.locator.line, d.locator.column) < toLex (hint.line, hint.column + hint.columnOffset) ∨
        ¬ HasLine source hint.line) := by
  obtain ⟨hhigh, hstartOffset⟩ := exists_of_span? hspan
  rcases startOffset_of_hint source hstart span.high with ⟨low, -, hoffset, heq⟩ | ⟨hnone, heq⟩
  · exact absurd (by rw [hoffset, ← heq, hstartOffset]) hlow
  · refine ⟨hstartOffset.trans heq, hhigh, ?_⟩
    by_contra hnot
    rw [not_or, not_lt, not_not] at hnot
    obtain ⟨low, high, hoffset, hhigh', hle⟩ :=
      exists_offsetAt_le hnot.2 (exists_offsetAt_iff.1 ⟨_, hhigh⟩) hnot.1
    obtain rfl := Option.some.inj (hhigh.symm.trans hhigh')
    exact hnone low hle hoffset

end Diagnostic

end MapMarkup
