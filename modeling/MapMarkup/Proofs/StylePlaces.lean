import MapMarkup.Css
import MapMarkup.Proofs.Lines
import MapMarkup.Report

/-!
# Where the problems of a stylesheet are shown

A problem of a stylesheet knows between which two places of the stylesheet it lies. Where the stylesheet is the content
of an element, the report of the problem shows the stretch between the same two places of the document, as long as the
problem starts behind the first line of the document's part (`CssProblem.report_place_iff`). In the first line, the
column of the start is taken one too far to the right, and the column of the end is not moved at all; then the stretch
is the right one only if the problem starts at the very end of the line and goes on in the next one.
-/

namespace MapMarkup

/-- The diagnostic for a problem that has been placed. -/
def PlacedProblem.diagnostic (p : PlacedProblem) : Diagnostic :=
  ⟨.error, p.message, p.locator, some p.start⟩

namespace Diagnostic

variable {source : List Char} {d : Diagnostic}

private theorem report_eq_iff {message : String} {span : Span} (hlevel : d.level = .error)
    (hmessage : d.message = message) :
    d.report source = ⟨.error, message, [{ span }]⟩ ↔ d.span? source = some span := by
  subst hmessage
  unfold report
  rw [hlevel]
  cases d.span? source <;> simp

theorem span?_of_high {high : Nat} (hhigh : offsetAt source d.locator.line d.locator.column = some high) :
    d.span? source = some ⟨d.startOffset source high, high⟩ := by
  rw [span?, hhigh]
  rfl

theorem startOffset_of_low {hint : StartHint} {low high : Nat} (hstart : d.start = some hint)
    (hlow : offsetAt source hint.line (hint.column + hint.columnOffset) = some low) (hle : low ≤ high) :
    d.startOffset source high = low := by
  rw [startOffset, hstart]
  dsimp only
  rw [hlow]
  dsimp only
  rw [if_pos hle]

end Diagnostic

namespace CssProblem

/-- In the stylesheet, the problem starts behind `pre` and ends behind `mid`, which comes next. -/
structure Covers (p : CssProblem) (pre mid : List Char) : Prop where
  beginLine : p.beginLine = (Position.start.after pre).line
  beginColumn : p.beginColumn = (Position.start.after pre).column
  endLine : p.endLine = (Position.start.after (pre ++ mid)).line
  endColumn : p.endColumn = (Position.start.after (pre ++ mid)).column

section Places

variable {before lead : List Char} (hlead : lead = ['\n'] ∨ lead = [])

include hlead

/-- Lines of the stylesheet and lines of the document. -/
private theorem line_place (cs : List Char) :
    (Position.start.after before).line + ((Position.start.after cs).line + lead.length) - 1 =
      (Position.start.after (before ++ lead ++ cs)).line := by
  have hcount : lead.count '\n' = lead.length := by
    rcases hlead with rfl | rfl <;> rfl
  rw [Position.line_after, Position.line_after, Position.line_after, List.count_append, List.count_append, hcount]
  show 1 + _ + (1 + _ + _) - 1 = 1 + _
  omega

/-- Behind the first line, columns of the stylesheet are columns of the document. -/
private theorem column_place {cs : List Char} (h : '\n' ∈ lead ++ cs) :
    (Position.start.after (before ++ lead ++ cs)).column = (Position.start.after cs).column := by
  rw [List.append_assoc, Position.after_append]
  rcases hlead with rfl | rfl
  · have hnew : ((Position.start.after before).after ['\n']).column = Position.start.column := rfl
    rw [Position.after_append]
    exact Position.column_after_congr hnew cs
  · exact Position.column_after_of_mem h _ _

private theorem offsetAt_place {cs rest : List Char} (hr : '\r' ∉ before ++ lead ++ cs ++ rest)
    (h : '\n' ∈ lead ++ cs) :
    offsetAt (before ++ lead ++ cs ++ rest)
        ((Position.start.after before).line + ((Position.start.after cs).line + lead.length) - 1)
        (Position.start.after cs).column =
      some (utf8Size (before ++ lead ++ cs)) := by
  rw [line_place hlead, ← column_place hlead h]
  exact offsetAt_after_of_not_mem hr

end Places

/-- The same without a line feed between. -/
private theorem line_place_nil (before cs : List Char) :
    (Position.start.after before).line + (Position.start.after cs).line - 1 =
      (Position.start.after (before ++ cs)).line := by
  have hline : _ + (_ + ([] : List Char).length) - 1 = (Position.start.after (before ++ [] ++ cs)).line :=
    line_place (.inr rfl) cs
  rwa [List.append_nil] at hline

section FirstLine

variable {before cs : List Char} (h : '\n' ∉ cs)

include h

/-- In the first line, columns of the document count from the place where the stylesheet starts. -/
private theorem column_place_of_not_mem :
    (Position.start.after cs).column + (Position.start.after before).column =
      (Position.start.after (before ++ cs)).column + 1 := by
  rw [Position.after_append, Position.column_after_of_not_mem h, Position.column_after_of_not_mem h]
  show 1 + _ + _ = _
  omega

variable {rest : List Char} (hr : '\r' ∉ before ++ cs ++ rest)

include hr

/-- Both columns count from 1, so their sum is one too many. -/
private theorem offsetAt_place_add :
    offsetAt (before ++ cs ++ rest) ((Position.start.after before).line + (Position.start.after cs).line - 1)
        ((Position.start.after cs).column + (Position.start.after before).column) =
      some (utf8Size (before ++ cs) + utf8Size ((rest.takeWhile (· ≠ '\n')).take 1)) := by
  rw [column_place_of_not_mem h, line_place_nil, offsetAt_after_add hr 1]

/-- The column in the stylesheet is none in the document, unless the stylesheet starts with the line. -/
private theorem exists_offsetAt_place_lt (hcolumn : 1 < (Position.start.after before).column) :
    ∃ offset < utf8Size (before ++ cs),
      offsetAt (before ++ cs ++ rest) ((Position.start.after before).line + (Position.start.after cs).line - 1)
        (Position.start.after cs).column = some offset := by
  have hsum : _ = (Position.start.after (before ++ cs)).column + 1 := column_place_of_not_mem h
  have hpos : (Position.start.after cs).column ≠ 0 := Nat.ne_of_gt (Position.column_after_pos cs)
  obtain ⟨offset, hoffset, hlt⟩ := exists_offsetAt_lt hr hpos (by omega)
  rw [line_place_nil]
  exact ⟨offset, hlt, hoffset⟩

end FirstLine

/-- A problem whose place is known and that has a message gets a diagnostic. -/
private theorem placeProblem_eq_some {p : CssProblem} {message : String} (hbegin : p.beginLine ≠ 0)
    (hmessage : p.message = some message) (origin : Locator) (lineOffset : Nat) (heading : String) :
    placeProblem origin lineOffset heading p = some {
      message := heading ++ message
      locator := { origin with line := origin.line + (p.endLine + lineOffset) - 1, column := p.endColumn }
      start := {
        line := origin.line + (p.beginLine + lineOffset) - 1
        column := p.beginColumn
        columnOffset := if p.beginLine = 1 && lineOffset = 0 then origin.column else 0 } } := by
  rw [placeProblem, if_neg (by omega), hmessage]
  rfl

/-- The diagnostic ends and starts where the problem does, in lines of the document; its columns are those of the
problem, and an offset is to be added to that of the start. -/
structure PlacedAs (p : CssProblem) (before lead : List Char) (columnOffset : Nat) (d : Diagnostic) : Prop where
  line : d.locator.line = (Position.start.after before).line + (p.endLine + lead.length) - 1
  column : d.locator.column = p.endColumn
  start : d.start = some
    ⟨(Position.start.after before).line + (p.beginLine + lead.length) - 1, p.beginColumn, columnOffset⟩

section Spans

variable {before lead pre mid rest : List Char} {p : CssProblem} {d : Diagnostic} (hcovers : p.Covers pre mid)
  (hr : '\r' ∉ before ++ lead ++ pre ++ mid ++ rest)

include hcovers hr

/-- The end is at its place in the document if a line starts between the tag and the end. -/
private theorem offsetAt_end {columnOffset : Nat} (hlead : lead = ['\n'] ∨ lead = [])
    (hd : p.PlacedAs before lead columnOffset d) (h : '\n' ∈ lead ++ (pre ++ mid)) :
    offsetAt (before ++ lead ++ pre ++ mid ++ rest) d.locator.line d.locator.column =
      some (utf8Size (before ++ lead ++ pre ++ mid)) := by
  have hassoc : before ++ lead ++ pre ++ mid = before ++ lead ++ (pre ++ mid) := List.append_assoc ..
  rw [hd.line, hd.column, hcovers.endLine, hcovers.endColumn]
  rw [hassoc] at hr ⊢
  exact offsetAt_place hlead hr h

/-- So is the start if a line starts between the tag and the start; then the span is that of the problem. -/
private theorem span?_of_mem (hlead : lead = ['\n'] ∨ lead = []) (hd : p.PlacedAs before lead 0 d)
    (h : '\n' ∈ lead ++ pre) :
    d.span? (before ++ lead ++ pre ++ mid ++ rest) =
      some ⟨utf8Size (before ++ lead ++ pre), utf8Size (before ++ lead ++ pre ++ mid)⟩ := by
  have hmem : '\n' ∈ lead ++ (pre ++ mid) := by
    rw [← List.append_assoc]
    exact List.mem_append_left _ h
  have hend := offsetAt_end hcovers hr hlead hd hmem
  have hassoc : before ++ lead ++ pre ++ mid ++ rest = before ++ lead ++ pre ++ (mid ++ rest) := List.append_assoc ..
  have hstart : offsetAt (before ++ lead ++ pre ++ mid ++ rest)
      ((Position.start.after before).line + (p.beginLine + lead.length) - 1) (p.beginColumn + 0) =
        some (utf8Size (before ++ lead ++ pre)) := by
    rw [hcovers.beginLine, hcovers.beginColumn]
    rw [hassoc] at hr ⊢
    exact offsetAt_place hlead hr h
  have hle : utf8Size (before ++ lead ++ pre) ≤ utf8Size (before ++ lead ++ pre ++ mid) := by
    rw [utf8Size_append _ mid]
    exact Nat.le_add_right _ _
  rw [Diagnostic.span?_of_high hend, Diagnostic.startOffset_of_low hd.start hstart hle]

end Spans

section FirstLine

variable {before pre mid rest : List Char} {p : CssProblem} {d : Diagnostic} (hcovers : p.Covers pre mid)
  (hr : '\r' ∉ before ++ pre ++ mid ++ rest) (hd : p.PlacedAs before [] (Position.start.after before).column d)
  (h : '\n' ∉ pre)

include hcovers hr hd h

/-- A problem that ends in the line of the tag is given another end. -/
private theorem span?_ne_of_not_mem (hcolumn : 1 < (Position.start.after before).column) (hmid : '\n' ∉ mid) :
    d.span? (before ++ pre ++ mid ++ rest) ≠ some ⟨utf8Size (before ++ pre), utf8Size (before ++ pre ++ mid)⟩ := by
  have hnone : '\n' ∉ pre ++ mid := by simp [h, hmid]
  have hassoc : before ++ pre ++ mid = before ++ (pre ++ mid) := List.append_assoc ..
  rw [hassoc] at hr ⊢
  obtain ⟨offset, hlt, hoffset⟩ := exists_offsetAt_place_lt hnone hr hcolumn
  rw [← hcovers.endLine, ← hcovers.endColumn, ← hd.column] at hoffset
  have hline : d.locator.line = (Position.start.after before).line + p.endLine - 1 := hd.line
  rw [← hline] at hoffset
  rw [Diagnostic.span?_of_high hoffset]
  intro heq
  exact Nat.ne_of_lt hlt (Span.mk.inj (Option.some.inj heq)).2

/-- A problem that starts in the line of the tag and goes on behind it is given a start that is too far to the right,
unless there is nothing to the right. -/
private theorem span?_iff_of_mem (hmid : '\n' ∈ mid) :
    d.span? (before ++ pre ++ mid ++ rest) = some ⟨utf8Size (before ++ pre), utf8Size (before ++ pre ++ mid)⟩ ↔
      mid.head? = some '\n' := by
  have hend : offsetAt (before ++ pre ++ mid ++ rest) d.locator.line d.locator.column =
      some (utf8Size (before ++ pre ++ mid)) := by
    have hlead : offsetAt (before ++ [] ++ pre ++ mid ++ rest) d.locator.line d.locator.column =
        some (utf8Size (before ++ [] ++ pre ++ mid)) :=
      offsetAt_end hcovers (by rwa [List.append_nil]) (.inr rfl) hd (by simp [hmid])
    rwa [List.append_nil] at hlead
  have hstart : offsetAt (before ++ pre ++ mid ++ rest) ((Position.start.after before).line + p.beginLine - 1)
      (p.beginColumn + (Position.start.after before).column) =
        some (utf8Size (before ++ pre) + utf8Size (((mid ++ rest).takeWhile (· ≠ '\n')).take 1)) := by
    rw [hcovers.beginLine, hcovers.beginColumn]
    rw [List.append_assoc] at hr ⊢
    exact offsetAt_place_add h hr
  rcases mid with _ | ⟨c, mid⟩
  · simp at hmid
  · have hsize : utf8Size (before ++ pre ++ c :: mid) = utf8Size (before ++ pre) + c.utf8Size + utf8Size mid := by
      rw [utf8Size_append _ (c :: mid), utf8Size_cons, Nat.add_assoc]
    by_cases hc : c = '\n'
    · have hnext : ((c :: mid ++ rest).takeWhile (· ≠ '\n')).take 1 = [] := by simp [hc]
      rw [hnext] at hstart
      refine iff_of_true ?_ (congrArg some hc)
      have hle : utf8Size (before ++ pre) + utf8Size [] ≤ utf8Size (before ++ pre ++ c :: mid) := by
        rw [hsize, utf8Size_nil]
        omega
      rw [Diagnostic.span?_of_high hend, Diagnostic.startOffset_of_low hd.start hstart hle]
      rfl
    · have hnext : ((c :: mid ++ rest).takeWhile (· ≠ '\n')).take 1 = [c] := by simp [hc]
      rw [hnext] at hstart
      refine iff_of_false ?_ fun h => hc (Option.some.inj h)
      have hpos := c.utf8Size_pos
      have hle : utf8Size (before ++ pre) + utf8Size [c] ≤ utf8Size (before ++ pre ++ c :: mid) := by
        rw [hsize, utf8Size_cons, utf8Size_nil]
        omega
      rw [Diagnostic.span?_of_high hend, Diagnostic.startOffset_of_low hd.start hstart hle]
      intro heq
      have := (Span.mk.inj (Option.some.inj heq)).1
      rw [utf8Size_cons, utf8Size_nil] at this
      omega

end FirstLine

/-- The stylesheet `pre ++ mid ++ post` stands in a document without carriage returns just behind the `>` of a tag, or
behind a line feed `lead` after it. The report of a problem shows what the problem covers if and only if the problem
does not start in the line of the tag, or starts at the end of that line and goes on in the next. -/
theorem report_place_iff {front lead pre mid rest : List Char} {p : CssProblem} {message : String}
    (hlead : lead = ['\n'] ∨ lead = []) (hcovers : p.Covers pre mid) (hmessage : p.message = some message)
    (systemId : Option String) (heading : String) :
    let before := front ++ ['>']
    let source := before ++ lead ++ pre ++ mid ++ rest
    let o := Position.start.after before
    '\r' ∉ source →
      ∃ placed, placeProblem ⟨o.line, o.column, systemId, none⟩ lead.length heading p = some placed ∧
        (placed.diagnostic.report source = ⟨.error, heading ++ message,
            [{ span := ⟨utf8Size (before ++ lead ++ pre), utf8Size (before ++ lead ++ pre ++ mid)⟩ }]⟩ ↔
          lead ≠ [] ∨ '\n' ∈ pre ∨ mid.head? = some '\n') := by
  intro before source o hr
  have hbegin : p.beginLine = 1 + pre.count '\n' := hcovers.beginLine.trans (Position.line_after _ _)
  have hcolumn : 1 < o.column := by
    show 1 < (Position.start.after (front ++ ['>'])).column
    rw [Position.after_append]
    exact Nat.succ_lt_succ (Position.column_after_pos front)
  refine ⟨_, placeProblem_eq_some (by omega) hmessage _ _ _, ?_⟩
  refine (Diagnostic.report_eq_iff rfl rfl).trans ?_
  generalize hd : PlacedProblem.diagnostic _ = d
  have hplaced : p.PlacedAs before lead (if p.beginLine = 1 && lead.length = 0 then o.column else 0) d := by
    rw [← hd]
    exact ⟨rfl, rfl, rfl⟩
  by_cases hfirst : '\n' ∈ lead ++ pre
  · have hoffset : (if p.beginLine = 1 && lead.length = 0 then o.column else 0) = 0 := by
      refine if_neg fun h => ?_
      simp only [Bool.and_eq_true, decide_eq_true_eq, List.length_eq_zero_iff] at h
      rw [h.2, List.nil_append] at hfirst
      have := List.count_pos_iff.2 hfirst
      omega
    rw [hoffset] at hplaced
    refine iff_of_true (span?_of_mem hcovers hr hlead hplaced hfirst) ?_
    rcases List.mem_append.1 hfirst with h | h
    · exact .inl (List.ne_nil_of_mem h)
    · exact .inr (.inl h)
  · rw [List.mem_append, not_or] at hfirst
    obtain rfl : lead = [] := hlead.resolve_left fun h => by simp [h] at hfirst
    have hone : p.beginLine = 1 := by
      rw [hbegin, List.count_eq_zero.2 hfirst.2]
    rw [hone] at hplaced
    have hsource : source = before ++ pre ++ mid ++ rest := by simp only [source, List.append_nil]
    rw [hsource] at hr ⊢
    rw [List.append_nil]
    by_cases hmid : '\n' ∈ mid
    · rw [span?_iff_of_mem hcovers hr hplaced hfirst.2 hmid]
      simp [hfirst.2]
    · refine iff_of_false (span?_ne_of_not_mem hcovers hr hplaced hfirst.2 hcolumn hmid) ?_
      rintro (hne | hpre | hhead)
      · exact hne rfl
      · exact hfirst.2 hpre
      · exact hmid (List.mem_of_mem_head? hhead)

end CssProblem

end MapMarkup
