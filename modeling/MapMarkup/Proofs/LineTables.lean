import MapMarkup.Proofs.LinePlaces
import MapMarkup.Proofs.Splitting

/-!
# Cutting stretches out of a document

Reports are rendered from a table of the offsets at which the lines of the document start. A line is cut out of the
bytes of the document by two of these offsets, its end is trimmed, and its characters are counted; a stretch is cut out
by two offsets that have been found so. Each such step may be refused, because a line does not exist, an offset falls
inside a character or behind the document, a stretch is reversed or a sum does not fit into 32 bits. None of them is, as
long as the columns of hints can be summed up, and what is rendered are the reports of the diagnostics
(`LineTable.reports?_ofSource`). Where the hint is a place of the document that is not behind the locator, the stretch
starts there (`LineTable.span?_of_hint`).
-/

namespace MapMarkup

/-- The stretch between two offsets of a stretch. It is refused if it is reversed or goes on behind the end. -/
def Span.part? (whole : Span) (low high : Nat) : Option Span :=
  if low ≤ high ∧ whole.low + high ≤ whole.high then some ⟨whole.low + low, whole.low + high⟩ else none

/-- The stretch is that of the given text in the document. -/
def Span.Covers (source : List Char) (span : Span) (text : List Char) : Prop :=
  ∃ before after, source = before ++ text ++ after ∧ span = ⟨utf8Size before, utf8Size (before ++ text)⟩

/-- The offsets behind the line feeds of a text that stands at the given offset. -/
def feedEnds (offset : Nat) : List Char → List Nat
  | [] => []
  | c :: cs =>
    if c = '\n' then (offset + c.utf8Size) :: feedEnds (offset + c.utf8Size) cs
    else feedEnds (offset + c.utf8Size) cs

/-- The offsets of the characters of a text that stands at the given offset. -/
def charOffsets (offset : Nat) : List Char → List Nat
  | [] => []
  | c :: cs => offset :: charOffsets (offset + c.utf8Size) cs

/-- A document with the offsets at which its lines start. -/
structure LineTable where
  source : List Char
  starts : List Nat
deriving DecidableEq, Repr

namespace LineTable

/-- The table of a document. -/
def ofSource (source : List Char) : LineTable := ⟨source, 0 :: feedEnds 0 source⟩

def span (t : LineTable) : Span := ⟨0, utf8Size t.source⟩

/-- The stretch of a line with its end; lines are counted from 0 here. -/
def lineSpan? (t : LineTable) (i : Nat) : Option Span :=
  t.starts[i]?.map fun low => ⟨low, t.starts[i + 1]?.getD (utf8Size t.source)⟩

/-- The text of a line without its end. -/
def lineText? (t : LineTable) (i : Nat) : Option (List Char) := do
  let line ← t.lineSpan? i
  return (← slice? t.source line.low line.high).rdropWhile fun c => c = '\r' || c = '\n'

/-- The offset of a line and a column, if the document has such a line. -/
def offset? (t : LineTable) (line column : Nat) : Option (Option Nat) :=
  if line = 0 ∨ t.starts.length ≤ line - 1 then some none
  else do
    let text ← t.lineText? (line - 1)
    let whole ← t.lineSpan? (line - 1)
    return some (whole.low + (charOffsets 0 text)[column - 1]?.getD (utf8Size text))

/-- Where the stretch of a diagnostic starts that ends at the given offset. -/
def startOffset? (t : LineTable) (d : Diagnostic) (high : Nat) : Option Nat :=
  match d.start with
  | some hint => do
    let low ← t.offset? hint.line (← sum32? hint.column hint.columnOffset)
    return (low.filter (· ≤ high)).getD high
  | none => do
    let before ← slice? t.source 0 high
    let size := (before.getLast?.map Char.utf8Size).getD 0
    if size ≤ high then some (high - size) else none

/-- The stretch of a diagnostic, if its line exists. -/
def span? (t : LineTable) (d : Diagnostic) : Option (Option Span) := do
  match ← t.offset? d.locator.line d.locator.column with
  | none => return none
  | some high => return some (← t.span.part? (← t.startOffset? d high) high)

/-- The rendered diagnostics. -/
def reports? (t : LineTable) (found : List Diagnostic) : Option (List Report) :=
  found.mapM fun d => do return ⟨d.level, d.message, (← t.span? d).toList.map fun span => { span }⟩

end LineTable

/-! ### Offsets -/

private theorem feedEnds_append (offset : Nat) (cs ds : List Char) :
    feedEnds offset (cs ++ ds) = feedEnds offset cs ++ feedEnds (offset + utf8Size cs) ds := by
  induction cs generalizing offset with
  | nil => rfl
  | cons c cs ih =>
    simp only [List.cons_append, feedEnds, ih, utf8Size_cons, Nat.add_assoc]
    split <;> rfl

private theorem length_feedEnds (offset : Nat) (cs : List Char) : (feedEnds offset cs).length = cs.count '\n' := by
  induction cs generalizing offset with
  | nil => rfl
  | cons c cs ih =>
    rw [feedEnds]
    by_cases hc : c = '\n'
    · rw [if_pos hc, List.length_cons, ih, hc, List.count_cons_self]
    · rw [if_neg hc, ih, List.count_cons_of_ne hc]

theorem length_charOffsets (offset : Nat) (cs : List Char) : (charOffsets offset cs).length = cs.length := by
  induction cs generalizing offset with
  | nil => rfl
  | cons c cs ih => rw [charOffsets, List.length_cons, ih, List.length_cons]

theorem getElem?_charOffsets {cs : List Char} {n : Nat} (h : n < cs.length) (offset : Nat) :
    (charOffsets offset cs)[n]? = some (offset + utf8Size (cs.take n)) := by
  induction cs generalizing offset n with
  | nil => simp at h
  | cons c cs ih =>
    cases n with
    | zero => rfl
    | succ n =>
      rw [charOffsets, List.getElem?_cons_succ, ih (Nat.lt_of_succ_lt_succ h), List.take_succ_cons, utf8Size_cons,
        Nat.add_assoc]

private theorem getD_charOffsets (cs : List Char) (n : Nat) :
    (charOffsets 0 cs)[n]?.getD (utf8Size cs) = utf8Size (cs.take n) := by
  by_cases h : n < cs.length
  · rw [getElem?_charOffsets h, Option.getD_some, Nat.zero_add]
  · rw [List.getElem?_eq_none (by rw [length_charOffsets]; omega), Option.getD_none,
      List.take_of_length_le (by omega)]

/-- Of two places of a document, the one with the smaller offset comes first. -/
private theorem exists_append_of_utf8Size_le {a b c d : List Char} (h : a ++ b = c ++ d)
    (hle : utf8Size a ≤ utf8Size c) :
    ∃ mid, c = a ++ mid ∧ b = mid ++ d := by
  rcases List.append_eq_append_iff.1 h with ⟨mid, rfl, rfl⟩ | ⟨mid, rfl, rfl⟩
  · exact ⟨mid, rfl, rfl⟩
  · have hnil : mid = [] := by
      rw [utf8Size_append] at hle
      exact eq_nil_of_utf8Size_eq_zero (by omega)
    subst hnil
    exact ⟨[], by simp, rfl⟩

private theorem sizeBefore_utf8Size (before after : List Char) :
    sizeBefore (before ++ after) (utf8Size before) = (before.getLast?.map Char.utf8Size).getD 0 := by
  rcases List.eq_nil_or_concat before with rfl | ⟨front, c, rfl⟩
  · cases after <;> rfl
  · rw [List.concat_eq_append, List.append_assoc, utf8Size_append]
    simpa using sizeBefore_append front c after

/-! ### Lines -/

namespace LineTable

variable {source above visible ends below : List Char} {n : Nat}

private theorem length_starts (source : List Char) : (ofSource source).starts.length = source.count '\n' + 1 :=
  congrArg (· + 1) (length_feedEnds 0 source)

/-- The line that starts behind some lines is numbered by their line feeds. -/
private theorem getElem?_starts (habove : above = [] ∨ ∃ before, above = before ++ ['\n']) (rest : List Char) :
    (ofSource (above ++ rest)).starts[above.count '\n']? = some (utf8Size above) := by
  rcases habove with rfl | ⟨before, rfl⟩
  · rfl
  · have hcount : (before ++ ['\n']).count '\n' = (feedEnds 0 before).length + 1 := by
      rw [List.count_append, length_feedEnds]
      rfl
    have hsize : utf8Size (before ++ ['\n']) = 0 + utf8Size before + Char.utf8Size '\n' := by
      rw [utf8Size_append, Nat.zero_add]
      rfl
    show (0 :: feedEnds 0 (before ++ ['\n'] ++ rest))[_]? = _
    rw [hcount, List.getElem?_cons_succ, List.append_assoc, feedEnds_append, List.getElem?_append_right (Nat.le_refl _),
      Nat.sub_self, hsize]
    rfl

variable (h : IsLine source n above visible ends below)

include h

theorem lineSpan?_of_isLine :
    (ofSource source).lineSpan? (n - 1) = some ⟨utf8Size above, utf8Size (above ++ visible ++ ends)⟩ := by
  have hstart : (ofSource source).starts[n - 1]? = some (utf8Size above) := by
    have hget := getElem?_starts h.above_ends (visible ++ ends ++ below)
    rwa [← List.append_assoc, ← List.append_assoc, ← h.source_eq, ← Nat.add_sub_cancel (above.count '\n') 1,
      ← h.number_eq] at hget
  have hend : (ofSource source).starts[n - 1 + 1]?.getD (utf8Size (ofSource source).source) =
      utf8Size (above ++ visible ++ ends) := by
    obtain ⟨k, hends⟩ := h.ends_eq
    have hnone : ∀ cs, '\n' ∉ cs → (above ++ visible ++ cs).count '\n' = above.count '\n' := by
      intro cs hcs
      rw [List.count_append, List.count_append, List.count_eq_zero.2 h.not_mem, List.count_eq_zero.2 hcs]
      rfl
    have hindex : n - 1 + 1 = above.count '\n' + 1 := by
      have hnumber := h.number_eq
      omega
    have hreturns : '\n' ∉ List.replicate k '\r' := by simp
    rw [hindex]
    rcases hends with rfl | ⟨rfl, rfl⟩
    · have hfeed : ∃ before, above ++ visible ++ (List.replicate k '\r' ++ ['\n']) = before ++ ['\n'] :=
        ⟨above ++ visible ++ List.replicate k '\r', by simp⟩
      have hget := getElem?_starts (.inr hfeed) below
      have hcount : (above ++ visible ++ (List.replicate k '\r' ++ ['\n'])).count '\n' = above.count '\n' + 1 := by
        rw [← List.append_assoc, List.count_append, hnone _ hreturns]
        rfl
      rw [hcount, ← h.source_eq] at hget
      rw [hget, Option.getD_some]
    · have hsource : source = above ++ visible ++ List.replicate k '\r' := by
        rw [h.source_eq, List.append_nil]
      have hlength : (ofSource source).starts.length = above.count '\n' + 1 := by
        rw [length_starts, hsource, hnone _ hreturns]
      rw [List.getElem?_eq_none (by rw [hlength]), Option.getD_none, ← hsource]
      rfl
  rw [lineSpan?, hstart, Option.map_some, hend]

theorem lineText?_of_isLine : (ofSource source).lineText? (n - 1) = some visible := by
  have hslice : slice? source (utf8Size above) (utf8Size (above ++ visible ++ ends)) = some (visible ++ ends) := by
    have hsource : source = above ++ ((visible ++ ends) ++ below) := by rw [h.source_eq]; simp
    rw [hsource, List.append_assoc above, utf8Size_append above, slice?_append]
  rw [lineText?, lineSpan?_of_isLine h]
  show (slice? source _ _).bind _ = _
  rw [hslice]
  exact congrArg some (rdropWhile_lineEnds h.not_mem h.last_ne fun c hc => h.mem_ends hc)

omit h

private theorem offset?_ofSource (source : List Char) (line column : Nat) :
    (ofSource source).offset? line column = some (offsetAt source line column) := by
  unfold offset?
  by_cases hline : HasLine source line
  · obtain ⟨above, visible, ends, below, hcut⟩ := exists_isLine hline
    have hin : ¬ (line = 0 ∨ (ofSource source).starts.length ≤ line - 1) := by
      rw [length_starts]
      have h0 := hline.1
      have h1 := hline.2
      omega
    rw [if_neg hin, lineText?_of_isLine hcut, lineSpan?_of_isLine hcut, hcut.offsetAt_eq,
      utf8Size_append above (visible.take _), ← getD_charOffsets]
    rfl
  · have hout : line = 0 ∨ (ofSource source).starts.length ≤ line - 1 := by
      rw [length_starts]
      by_contra hnot
      exact hline ⟨by omega, by omega⟩
    have hnone : offsetAt source line column = none := by
      rw [Option.eq_none_iff_forall_ne_some]
      exact fun o ho => hline (exists_offsetAt_iff.1 ⟨o, ho⟩)
    rw [if_pos hout, hnone]

end LineTable

/-! ### Diagnostics -/

namespace LineTable

variable {source : List Char} {d : Diagnostic}

/-- The stretch starts and ends between characters of the document, in this order, and it ends in the line of the
locator. Without a hint it is the character in front of its end, if there is one. -/
structure Shows (source : List Char) (d : Diagnostic) (span : Span) (before part : List Char) : Prop where
  within : before ++ part <+: source
  low_eq : span.low = utf8Size before
  high_eq : span.high = utf8Size (before ++ part)
  line_eq : (Position.start.after (before ++ part)).line = d.locator.line
  single : d.start = none → (∃ c, part = [c]) ∨ before = [] ∧ part = []

private theorem startOffset?_ofSource {before after : List Char}
    (hsum : ∀ hint, d.start = some hint → hint.column + hint.columnOffset < 2 ^ 32) :
    (ofSource (before ++ after)).startOffset? d (utf8Size before) =
      some (d.startOffset (before ++ after) (utf8Size before)) := by
  unfold startOffset? Diagnostic.startOffset
  cases hstart : d.start with
  | some hint =>
    dsimp only
    rw [sum32?_of_lt (hsum hint hstart)]
    simp only [Option.bind_eq_bind, Option.bind_some, offset?_ofSource]
    cases hoffset : offsetAt (before ++ after) hint.line (hint.column + hint.columnOffset) with
    | none => rfl
    | some low => by_cases hle : low ≤ utf8Size before <;> simp [hle, Option.filter]
  | none =>
    have hslice : slice? (before ++ after) 0 (utf8Size before) = some before := by
      simpa using slice?_append [] before after
    dsimp only
    show (slice? (before ++ after) 0 (utf8Size before)).bind _ = _
    rw [hslice, Option.bind_some, sizeBefore_utf8Size]
    refine if_pos ?_
    rcases List.eq_nil_or_concat before with rfl | ⟨front, c, rfl⟩
    · exact Nat.le_refl 0
    · simp

/-- A stretch that is in the document is cut out as it is. -/
theorem part?_of_covers {span : Span} {text : List Char} (h : span.Covers source text) :
    (ofSource source).span.part? span.low span.high = some span := by
  obtain ⟨before, after, rfl, rfl⟩ := h
  have hwithin : 0 + utf8Size (before ++ text) ≤ utf8Size (before ++ text ++ after) := by
    rw [Nat.zero_add]
    exact utf8Size_le_of_isPrefix (List.prefix_append _ after)
  rw [Span.part?]
  refine (if_pos ⟨utf8Size_le_of_isPrefix (List.prefix_append before text), hwithin⟩).trans ?_
  simp [LineTable.span]

/-- Where a stretch starts that ends behind `before`. -/
private theorem exists_startOffset (d : Diagnostic) (before after : List Char) :
    ∃ front part, before = front ++ part ∧ d.startOffset (before ++ after) (utf8Size before) = utf8Size front ∧
      (d.start = none → (∃ c, part = [c]) ∨ front = [] ∧ part = []) := by
  cases hstart : d.start with
  | some hint =>
    rcases Diagnostic.startOffset_of_hint (before ++ after) hstart (utf8Size before) with
      ⟨low, hle, hlow, heq⟩ | ⟨-, heq⟩
    · obtain ⟨front, back, hsource, rfl, -⟩ := exists_append_of_offsetAt hlow
      obtain ⟨part, hpart, -⟩ := exists_append_of_utf8Size_le hsource.symm hle
      exact ⟨front, part, hpart, heq, by simp⟩
    · exact ⟨before, [], (List.append_nil _).symm, heq, by simp⟩
  | none =>
    have hoffset : d.startOffset (before ++ after) (utf8Size before) =
        utf8Size before - (before.getLast?.map Char.utf8Size).getD 0 := by
      rw [Diagnostic.startOffset, hstart, ← sizeBefore_utf8Size before after]
    rcases List.eq_nil_or_concat before with rfl | ⟨front, c, rfl⟩
    · exact ⟨[], [], rfl, hoffset, fun _ => .inr ⟨rfl, rfl⟩⟩
    · rw [List.concat_eq_append] at hoffset ⊢
      refine ⟨front, [c], rfl, ?_, fun _ => .inl ⟨c, rfl⟩⟩
      rw [hoffset]
      simp

private theorem span?_ofSource (source : List Char)
    (hsum : ∀ hint, d.start = some hint → hint.column + hint.columnOffset < 2 ^ 32) :
    (ofSource source).span? d = some (d.span? source) ∧
      (¬ HasLine source d.locator.line ∧ d.span? source = none ∨
        HasLine source d.locator.line ∧
          ∃ span before part, d.span? source = some span ∧ Shows source d span before part) := by
  have hplace := offset?_ofSource source d.locator.line d.locator.column
  cases hhigh : offsetAt source d.locator.line d.locator.column with
  | none =>
    have hno : ¬ HasLine source d.locator.line := by
      intro h
      obtain ⟨o, ho⟩ : ∃ o, offsetAt source d.locator.line d.locator.column = some o := exists_offsetAt_iff.2 h
      simp [hhigh] at ho
    have hspan : d.span? source = none := by rw [Diagnostic.span?, hhigh, Option.map_none]
    refine ⟨?_, .inl ⟨hno, hspan⟩⟩
    rw [span?, hplace, hhigh, hspan]
    rfl
  | some high =>
    have hspan := Diagnostic.span?_of_high hhigh
    obtain ⟨before, after, rfl, rfl, hline⟩ := exists_append_of_offsetAt hhigh
    obtain ⟨front, part, rfl, hlow, hsingle⟩ := exists_startOffset d before after
    rw [hlow] at hspan
    have hshows : Shows (front ++ part ++ after) d ⟨utf8Size front, utf8Size (front ++ part)⟩ front part :=
      ⟨List.prefix_append _ _, rfl, rfl, hline, hsingle⟩
    refine ⟨?_, .inr ⟨exists_offsetAt_iff.1 ⟨_, hhigh⟩, _, front, part, hspan, hshows⟩⟩
    have hcovers : Span.Covers (front ++ part ++ after) ⟨utf8Size front, utf8Size (front ++ part)⟩ part :=
      ⟨front, after, rfl, rfl⟩
    have hpart := part?_of_covers hcovers
    rw [span?, hplace, hhigh, hspan]
    simp only [Option.bind_eq_bind, Option.bind_some, startOffset?_ofSource hsum, hlow, hpart]
    rfl

/-- Every list of diagnostics is rendered as one report each, in order, with its level and its message, as long as the
columns of hints can be summed up. A report shows a stretch if and only if the document has the line of the locator. The
stretch starts and ends between characters of the document and ends in that line; without a hint it is the character in
front of the locator's place, and empty only at the start of the document. -/
theorem reports?_ofSource (source : List Char) (found : List Diagnostic)
    (hsum : ∀ d ∈ found, ∀ hint, d.start = some hint → hint.column + hint.columnOffset < 2 ^ 32) :
    (ofSource source).reports? found = some (found.map (Diagnostic.report source)) ∧
      ∀ d ∈ found, (d.report source).level = d.level ∧ (d.report source).message = d.message ∧
        (¬ HasLine source d.locator.line ∧ (d.report source).marks = [] ∨
          HasLine source d.locator.line ∧
            ∃ span before part, (d.report source).marks = [{ span }] ∧ Shows source d span before part) := by
  constructor
  · induction found with
    | nil => rfl
    | cons d found ih =>
      have hfirst := (span?_ofSource source (hsum d (by simp))).1
      have hrest := ih fun d' hd' => hsum d' (List.mem_cons_of_mem _ hd')
      rw [reports?] at hrest ⊢
      rw [List.mapM_cons, hrest, hfirst]
      rfl
  · intro d hd
    refine ⟨rfl, rfl, ?_⟩
    have hshown := (span?_ofSource source (hsum d hd)).2
    rcases hshown with ⟨hno, hspan⟩ | ⟨hline, span, before, part, hspan, hshows⟩
    · exact .inl ⟨hno, by rw [Diagnostic.report, hspan]; rfl⟩
    · exact .inr ⟨hline, span, before, part, by rw [Diagnostic.report, hspan]; rfl, hshows⟩

/-- Columns far behind the ends of lines with several returns and wide characters, and a line that is missing. -/
theorem reports?_ofSource_farColumns :
    let found : List Diagnostic := [⟨.error, "m", ⟨2, 2, none, none⟩, none⟩,
      ⟨.warning, "n", ⟨1, 4294967295, none, none⟩, some ⟨2, 1, 4294967294⟩⟩, ⟨.error, "o", ⟨3, 1, none, none⟩, none⟩]
    (∀ d ∈ found, ∀ hint, d.start = some hint → hint.column + hint.columnOffset < 2 ^ 32) ∧
      (ofSource "a\r\n😀b".toList).reports? found =
        some [⟨.error, "m", [{ span := ⟨3, 7⟩ }]⟩, ⟨.warning, "n", [{ span := ⟨1, 1⟩ }]⟩, ⟨.error, "o", []⟩] := by
  intro found
  have hsum : ∀ d ∈ found, ∀ hint, d.start = some hint → hint.column + hint.columnOffset < 2 ^ 32 := by
    simp [found]
  exact ⟨hsum, (reports?_ofSource _ found hsum).1.trans (by decide +kernel)⟩

/-- Columns of a hint that cannot be summed up stop the rendering. -/
private theorem span?_of_sum32?_eq_none {hint : StartHint} (hstart : d.start = some hint)
    (hsum : sum32? hint.column hint.columnOffset = none) (hline : HasLine source d.locator.line) :
    (ofSource source).span? d = none := by
  obtain ⟨high, hhigh⟩ : ∃ o, offsetAt source d.locator.line d.locator.column = some o := exists_offsetAt_iff.2 hline
  have hnone : (ofSource source).startOffset? d high = none := by
    rw [startOffset?, hstart]
    dsimp only
    rw [hsum]
    rfl
  rw [span?, offset?_ofSource, hhigh]
  simp only [Option.bind_eq_bind, Option.bind_some, hnone]
  rfl

/-- The place of a line and a column is the one that counting gives them, or the end of the line's visible text if that
comes first, and the order of places is that of lines and columns. So a stretch with a hint whose columns can be summed
up starts at the hint if both lines are in the document and the hint is not behind the locator; it is only empty at the
locator for want of a start if the hint is behind the locator or on a line that the document does not have. There is no
stretch at all if the columns cannot be summed up. -/
theorem span?_of_hint (source : List Char) :
    let t : LineTable := ofSource source
    (∀ before after, source = before ++ after → let p := Position.start.after before
      ∃ above visible ends below, IsLine source p.line above visible ends below ∧
        t.offset? p.line p.column = some (some (min (utf8Size before) (utf8Size (above ++ visible))))) ∧
    (∀ line column line' column', HasLine source line → HasLine source line' →
      toLex (line, column) ≤ toLex (line', column') →
        ∃ o o', t.offset? line column = some (some o) ∧ t.offset? line' column' = some (some o') ∧ o ≤ o') ∧
    ∀ (d : Diagnostic) (hint : StartHint), d.start = some hint →
      (∀ column, sum32? hint.column hint.columnOffset = some column →
        t.span? d = some (d.span? source) ∧
        (HasLine source hint.line → HasLine source d.locator.line →
          toLex (hint.line, column) ≤ toLex (d.locator.line, d.locator.column) →
            ∃ low high, t.offset? hint.line column = some (some low) ∧
              t.offset? d.locator.line d.locator.column = some (some high) ∧ t.span? d = some (some ⟨low, high⟩)) ∧
        ∀ span, t.span? d = some (some span) → t.offset? hint.line column ≠ some (some span.low) →
          span.low = span.high ∧ t.offset? d.locator.line d.locator.column = some (some span.high) ∧
            (toLex (d.locator.line, d.locator.column) < toLex (hint.line, column) ∨ ¬ HasLine source hint.line)) ∧
      (sum32? hint.column hint.columnOffset = none → HasLine source d.locator.line → t.span? d = none) := by
  intro t
  simp only [t, offset?_ofSource, Option.some.injEq, ne_eq]
  refine ⟨?_, fun _ _ _ _ => exists_offsetAt_le, fun d hint hstart => ⟨fun column hcolumn => ?_, ?_⟩⟩
  · rintro before after rfl
    exact offsetAt_after_eq_min before after
  · obtain ⟨hlt, rfl⟩ := sum32?_eq_some_iff.1 hcolumn
    have hsum : ∀ hint, d.start = some hint → hint.column + hint.columnOffset < 2 ^ 32 := by
      rintro hint' hstart'
      obtain rfl := Option.some.inj (hstart.symm.trans hstart')
      exact hlt
    have hspan := (span?_ofSource source hsum).1
    rw [hspan]
    simp only [Option.some.injEq]
    exact ⟨trivial, Diagnostic.exists_span?_of_le hstart, fun span => Diagnostic.low_eq_high_of_span? hstart⟩
  · exact span?_of_sum32?_eq_none hstart

end LineTable

end MapMarkup
