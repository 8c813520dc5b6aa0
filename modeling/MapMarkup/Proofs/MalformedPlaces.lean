import MapMarkup.Proofs.ErrorPlaces

/-!
# Where malformed markup is shown

Malformed markup is found at a place of the document, which is known by its line and column. Where a character of the
visible text of the line stands at the place, the report shows the place. Where none does, as at the end of a line, the
report shows the start of the line, while line and column of a diagnostic would lead to the end of the visible text
(`Xml.Reader.marks_of_malformed`).
-/

namespace MapMarkup

open Xml (Malformed ReadError)

/-- What line and column of a place lead to, and what is shown for markup that is malformed there. -/
private theorem LineTable.exists_shownAt {e : Malformed} {before : List Char}
    (hposition : e.position = Position.start.after before) (after : List Char) :
    ∃ above visible ends below, IsLine (before ++ after) e.position.line above visible ends below ∧
      offsetAt (before ++ after) e.position.line e.position.column =
        some (min (utf8Size before) (utf8Size (above ++ visible))) ∧
      e.shownAt (before ++ after) =
        if utf8Size before < utf8Size (above ++ visible) then utf8Size before else utf8Size above := by
  obtain ⟨above, start, visible, ends, below, rfl, hcolumn, hline, htext⟩ := exists_isLine_of_place before after
  rw [← hposition] at hcolumn hline
  have htake := utf8Size_take_eq_min htext above
  refine ⟨above, visible, ends, below, hline, by rw [hline.offsetAt_eq, hcolumn, htake], ?_⟩
  rw [shownAt_of_isLine hline, hcolumn]
  by_cases hvisible : start.length < visible.length
  · have hlt : utf8Size (above ++ start) < utf8Size (above ++ visible) := by
      rw [utf8Size_append, utf8Size_append]
      exact Nat.add_lt_add_left ((length_lt_iff_utf8Size_lt htext).1 hvisible) _
    rw [if_pos hvisible, if_pos hlt, htake, Nat.min_eq_left (Nat.le_of_lt hlt)]
  · have hnot : ¬ utf8Size (above ++ start) < utf8Size (above ++ visible) := by
      rw [utf8Size_append, utf8Size_append, Nat.add_lt_add_iff_left]
      exact fun hlt => hvisible ((length_lt_iff_utf8Size_lt htext).2 hlt)
    rw [if_neg hvisible, if_neg hnot, List.append_nil]

namespace Xml.Reader

/-- If a call fails for malformed markup, the markup has been found at a place of the document, and line and column of
the error are those of the place. They lead to the place, or to the end of the visible text of the line if that comes
first. The report has one empty stretch, which can be cut out of the document: it is at the place if the place is in
front of the end of the visible text, and at the start of the line if not. So it is where line and column lead to if
and only if a visible character stands at the place, or the line has none. -/
theorem marks_of_malformed (source : List Char) (systemId : Option String) {k : Nat} {e : Malformed} :
    let r := start source systemId
    (r.call k).2 = .failed (.malformed e) →
      ∃ before after, source = before ++ after ∧ e.position = Position.start.after before ∧
        ∃ above visible ends below, IsLine source e.position.line above visible ends below ∧
          let place := utf8Size before
          let lineEnd := utf8Size (above ++ visible)
          let shown := if place < lineEnd then place else utf8Size above
          ReadError.marks source (.malformed e) = [{ span := ⟨shown, shown⟩ }] ∧
          (LineTable.ofSource source).marks? (.malformed e) = some [{ span := ⟨shown, shown⟩ }] ∧
          offsetAt source e.position.line e.position.column = some (min place lineEnd) ∧
          (shown = min place lineEnd ↔ place < lineEnd ∨ visible = []) := by
  intro r h
  have hl : (r.afterCalls k).lexer.next? = .error e := by
    obtain ⟨texts, hblames, -⟩ := exists_blames h
    cases hblames with
    | malformed hl => exact hl
    | reference _ _ hfails => cases hfails
  obtain ⟨before, after, rfl, hposition⟩ := exists_place_of_error hl
  obtain ⟨above, visible, ends, below, hline, hoffset, hshown⟩ := LineTable.exists_shownAt hposition after
  refine ⟨before, after, rfl, hposition, above, visible, ends, below, hline, ?_⟩
  intro place lineEnd shown
  have hplace : e.shownAt (before ++ after) = shown := hshown
  refine ⟨?_, ?_, hoffset, ?_⟩
  · rw [ReadError.marks, hplace]
  · rw [(LineTable.marks?_malformed hline.hasLine).1, hplace]
  · by_cases hlt : place < lineEnd
    · exact iff_of_true ((if_pos hlt).trans (Nat.min_eq_left (Nat.le_of_lt hlt)).symm) (.inl hlt)
    · have hstart : shown = utf8Size above := if_neg hlt
      have hend : min place lineEnd = utf8Size above + utf8Size visible := by
        rw [Nat.min_eq_right (Nat.le_of_not_lt hlt)]
        exact utf8Size_append above visible
      rw [hstart, hend, or_iff_right hlt]
      constructor
      · intro heq
        exact eq_nil_of_utf8Size_eq_zero (by omega)
      · rintro rfl
        rfl

/-- An attribute begins in front of the white space before its name. Here this is a line end, and the report shows the
start of the line that it ends. -/
theorem marks_of_malformed_lineEnd :
    let source := "<é>\r\n<b é='1'\r\n d></b></é>".toList
    let e : Malformed := .invalid .attribute (.expectedChar ['='] '>' ⟨19, 3, 3⟩) ⟨15, 2, 9⟩
    ((start source none).call 5).2 = .failed (.malformed e) ∧
      (LineTable.ofSource source).marks? (.malformed e) = some [{ span := ⟨6, 6⟩ }] := by
  intro source e
  have hfailed : ((start source none).call 5).2 = .failed (.malformed e) := by decide +kernel
  obtain ⟨before, after, -, -, above, visible, ends, below, -, hmarks, hcut, -⟩ :=
    marks_of_malformed source none hfailed
  exact ⟨hfailed, by rw [hcut, ← hmarks]; decide +kernel⟩

/-- Line and column of the same attribute lead to the end of the line. -/
theorem marks_ne_of_lineEnd :
    let source := "<é>\r\n<b é='1'\r\n d></b></é>".toList
    let e : Malformed := .invalid .attribute (.expectedChar ['='] '>' ⟨19, 3, 3⟩) ⟨15, 2, 9⟩
    ((start source none).call 5).2 = .failed (.malformed e) ∧
      offsetAt source e.position.line e.position.column = some 15 ∧
      ReadError.marks source (.malformed e) ≠ [{ span := ⟨15, 15⟩ }] := by
  decide +kernel

end Xml.Reader

end MapMarkup
