import Mathlib.Data.List.TakeWhile
import MapMarkup.Source.Lines

/-!
# From places to lines and back

The place after a text is known by its line and its column; they lead back to the number of bytes in the text. A text
is cut behind its last line feed (`exists_lineStart`): what is in front of the cut makes up the lines above, and what is
behind it is the start of the line that the place is in (`getElem?_linesOf`). The way back is only open within the
visible text of a line, so in `offsetAt_after` the last character is no line end.
-/

namespace MapMarkup

/-- Texts in front of two places of a document are the same if they are of the same size. -/
theorem append_inj_of_utf8Size {a b c d : List Char} (h : a ++ b = c ++ d) (hsize : utf8Size a = utf8Size c) :
    a = c ∧ b = d := by
  induction a generalizing c with
  | nil =>
    rcases c with _ | ⟨x, c⟩
    · exact ⟨rfl, h⟩
    · have := x.utf8Size_pos
      simp only [utf8Size_nil, utf8Size_cons] at hsize
      omega
  | cons x a ih =>
    rcases c with _ | ⟨y, c⟩
    · have := x.utf8Size_pos
      simp only [utf8Size_nil, utf8Size_cons] at hsize
      omega
    · obtain ⟨rfl, hrest⟩ := List.cons.inj h
      obtain ⟨rfl, rfl⟩ := ih hrest (by simpa using hsize)
      exact ⟨rfl, rfl⟩

/-- Every text is cut behind its last line feed. -/
theorem exists_lineStart (cs : List Char) :
    ∃ above start, cs = above ++ start ∧ '\n' ∉ start ∧ (above = [] ∨ ∃ before, above = before ++ ['\n']) := by
  induction cs with
  | nil => exact ⟨[], [], rfl, by simp, .inl rfl⟩
  | cons c cs ih =>
    obtain ⟨above, start, rfl, hstart, habove⟩ := ih
    rcases habove with rfl | ⟨before, rfl⟩
    · by_cases hc : c = '\n'
      · exact ⟨['\n'], start, by rw [hc]; rfl, hstart, .inr ⟨[], rfl⟩⟩
      · exact ⟨[], c :: start, rfl, by simp [hstart, Ne.symm hc], .inl rfl⟩
    · exact ⟨c :: (before ++ ['\n']), start, rfl, hstart, .inr ⟨c :: before, rfl⟩⟩

namespace Position

theorem column_after_of_not_mem {cs : List Char} (h : '\n' ∉ cs) (p : Position) :
    (p.after cs).column = p.column + cs.length := by
  induction cs generalizing p with
  | nil => rfl
  | cons c cs ih =>
    simp only [List.mem_cons, not_or] at h
    rw [after_cons, ih h.2, advance, if_neg (Ne.symm h.1), List.length_cons, Nat.add_right_comm, Nat.add_assoc]

/-- The column only depends on the column before. -/
theorem column_after_congr {p q : Position} (h : p.column = q.column) (cs : List Char) :
    (p.after cs).column = (q.after cs).column := by
  induction cs generalizing p q with
  | nil => exact h
  | cons c cs ih =>
    refine ih ?_
    unfold advance
    split
    · rfl
    · exact congrArg (· + 1) h

/-- Behind a line feed, columns are counted anew. -/
theorem column_after_of_mem {cs : List Char} (h : '\n' ∈ cs) (p q : Position) :
    (p.after cs).column = (q.after cs).column := by
  obtain ⟨before, rest, rfl⟩ := List.append_of_mem h
  rw [after_append, after_append, after_cons, after_cons]
  have hnew : ((p.after before).advance '\n').column = ((q.after before).advance '\n').column := rfl
  exact column_after_congr hnew rest

/-- The column counts the characters of the line. -/
theorem column_after_start {above start : List Char} (habove : above = [] ∨ ∃ before, above = before ++ ['\n'])
    (hstart : '\n' ∉ start) : (Position.start.after (above ++ start)).column = start.length + 1 := by
  have hcolumn : (Position.start.after above).column = 1 := by
    rcases habove with rfl | ⟨before, rfl⟩
    · rfl
    · rw [after_append]
      rfl
  rw [after_append, column_after_of_not_mem hstart, hcolumn, Nat.add_comm]

theorem column_after_pos (cs : List Char) : 0 < (Position.start.after cs).column := by
  obtain ⟨above, start, rfl, hstart, habove⟩ := exists_lineStart cs
  rw [column_after_start habove hstart]
  exact Nat.succ_pos _

end Position

/-! ### Lines of a text -/

theorem linesFrom_cons_lineFeed (start : Nat) (cs : List Char) :
    linesFrom start ('\n' :: cs) = ⟨start, []⟩ :: linesFrom (start + 1) cs := rfl

theorem linesFrom_cons_of_ne {start : Nat} {c : Char} {cs : List Char} {l : Line} {others : List Line} (hc : c ≠ '\n')
    (h : linesFrom (start + c.utf8Size) cs = l :: others) :
    linesFrom start (c :: cs) = ⟨start, c :: l.content⟩ :: others := by
  have hb : (c == '\n') = false := beq_eq_false_iff_ne.2 hc
  simp only [linesFrom, h, hb]

theorem linesFrom_eq_cons (start : Nat) (cs : List Char) :
    ∃ others, linesFrom start cs = ⟨start, cs.takeWhile (· ≠ '\n')⟩ :: others := by
  induction cs generalizing start with
  | nil => exact ⟨[], rfl⟩
  | cons c cs ih =>
    obtain ⟨others, h⟩ := ih (start + c.utf8Size)
    by_cases hc : c = '\n'
    · subst hc
      exact ⟨linesFrom (start + 1) cs, linesFrom_cons_lineFeed start cs⟩
    · refine ⟨others, ?_⟩
      rw [linesFrom_cons_of_ne hc h, List.takeWhile_cons_of_pos (by simp [hc])]

/-- What is in front of a line feed makes up as many lines as it has line feeds, that one included. -/
private theorem exists_linesFrom_append (start : Nat) (before cs : List Char) :
    ∃ first, first.length = before.count '\n' + 1 ∧
      linesFrom start (before ++ '\n' :: cs) = first ++ linesFrom (start + utf8Size before + 1) cs := by
  induction before generalizing start with
  | nil => exact ⟨[⟨start, []⟩], rfl, linesFrom_cons_lineFeed start cs⟩
  | cons c before ih =>
    obtain ⟨first, hlength, hfirst⟩ := ih (start + c.utf8Size)
    have hstart : start + utf8Size (c :: before) + 1 = start + c.utf8Size + utf8Size before + 1 := by
      rw [utf8Size_cons]
      omega
    -- A line feed makes one line more; any other character goes to the front of the first line.
    by_cases hc : c = '\n'
    · subst hc
      refine ⟨⟨start, []⟩ :: first, by simp [hlength], ?_⟩
      rw [hstart, List.cons_append, linesFrom_cons_lineFeed, List.cons_append]
      exact congrArg _ hfirst
    · rcases first with _ | ⟨l, first⟩
      · simp at hlength
      · refine ⟨⟨start, c :: l.content⟩ :: first, by simpa [hc] using hlength, ?_⟩
        rw [hstart]
        exact linesFrom_cons_of_ne hc hfirst

/-- The line that a place is in starts behind the last line feed in front of the place. -/
theorem getElem?_linesOf {above start : List Char} (habove : above = [] ∨ ∃ before, above = before ++ ['\n'])
    (hstart : '\n' ∉ start) (after : List Char) :
    (linesOf (above ++ start ++ after))[(Position.start.after (above ++ start)).line - 1]? =
      some ⟨utf8Size above, start ++ after.takeWhile (· ≠ '\n')⟩ := by
  have hline : (Position.start.after (above ++ start)).line - 1 = above.count '\n' := by
    rw [Position.line_after, List.count_append, List.count_eq_zero.2 hstart]
    show 1 + _ - 1 = _
    omega
  have hcontent : (start ++ after).takeWhile (· ≠ '\n') = start ++ after.takeWhile (· ≠ '\n') := by
    apply List.takeWhile_append_of_pos
    intro c hc
    simpa using fun h : c = '\n' => hstart (h ▸ hc)
  rw [hline, linesOf, List.append_assoc, ← hcontent]
  rcases habove with rfl | ⟨before, rfl⟩
  · obtain ⟨others, h⟩ := linesFrom_eq_cons 0 (start ++ after)
    rw [List.nil_append, h]
    rfl
  · obtain ⟨first, hlength, hfirst⟩ := exists_linesFrom_append 0 before (start ++ after)
    obtain ⟨others, h⟩ := linesFrom_eq_cons (0 + utf8Size before + 1) (start ++ after)
    have hcount : (before ++ ['\n']).count '\n' = first.length := by
      rw [List.count_append, hlength]
      rfl
    have hsize : utf8Size (before ++ ['\n']) = 0 + utf8Size before + 1 := by
      rw [utf8Size_append, Nat.zero_add]
      rfl
    rw [List.append_assoc, List.singleton_append, hfirst, hcount, List.getElem?_append_right (Nat.le_refl _), h, hsize,
      Nat.sub_self]
    rfl

private theorem Line.visible_append (offset : Nat) (cs : List Char) {c : Char} (hr : c ≠ '\r') (hn : c ≠ '\n')
    (ds : List Char) : ∃ es, Line.visible ⟨offset, cs ++ c :: ds⟩ = cs ++ c :: es := by
  have hstop : ∀ l : List Char, (c :: l).dropWhile (fun c => c = '\r' || c = '\n') = c :: l := by
    intro l
    simp [hr, hn]
  have hreverse : (cs ++ c :: ds).reverse = ds.reverse ++ c :: cs.reverse := by simp
  unfold Line.visible
  rw [hreverse, List.dropWhile_append, hstop]
  split
  · exact ⟨[], by simp⟩
  · exact ⟨(ds.reverse.dropWhile fun c => c = '\r' || c = '\n').reverse, by simp⟩

/-- Line and column of the place behind a character that is no line end lead back to that place. -/
theorem offsetAt_after (before : List Char) {c : Char} (hr : c ≠ '\r') (hn : c ≠ '\n') (after : List Char) :
    let p := Position.start.after (before ++ [c])
    offsetAt (before ++ c :: after) p.line p.column = some (utf8Size before + c.utf8Size) := by
  intro p
  obtain ⟨above, start, rfl, hstart, habove⟩ := exists_lineStart before
  have hsource : above ++ start ++ c :: after = above ++ (start ++ [c]) ++ after := by simp
  have hplace : above ++ start ++ [c] = above ++ (start ++ [c]) := List.append_assoc ..
  have hc : '\n' ∉ start ++ [c] := by simp [hstart, Ne.symm hn]
  have hline : p.line ≠ 0 := by
    show (Position.start.after _).line ≠ 0
    rw [Position.line_after]
    show 1 + _ ≠ 0
    omega
  have hcolumn : p.column - 1 = start.length + 1 := by
    show (Position.start.after _).column - 1 = _
    rw [hplace, Position.column_after_start habove hc, List.length_append]
    rfl
  have hget : (linesOf (above ++ start ++ c :: after))[p.line - 1]? =
      some ⟨utf8Size above, start ++ [c] ++ after.takeWhile (· ≠ '\n')⟩ := by
    show (linesOf _)[(Position.start.after _).line - 1]? = _
    rw [hsource, hplace]
    exact getElem?_linesOf habove hc after
  rw [offsetAt, if_neg hline, hget, Option.map_some, Option.some.injEq, Line.bytesBefore, List.append_assoc,
    List.singleton_append]
  obtain ⟨es, hvisible⟩ := Line.visible_append (utf8Size above) start hr hn (after.takeWhile (· ≠ '\n'))
  rw [hvisible, hcolumn, List.take_length_add_append]
  simp [Nat.add_assoc]

/-! ### Texts without carriage returns -/

private theorem Line.visible_eq {l : Line} (hr : '\r' ∉ l.content) (hn : '\n' ∉ l.content) : l.visible = l.content := by
  have hother : ∀ c ∈ l.content, ¬ (c = '\r' || c = '\n') = true := by
    intro c hc
    rw [Bool.or_eq_true, decide_eq_true_eq, decide_eq_true_eq]
    rintro (rfl | rfl)
    · exact hr hc
    · exact hn hc
  have hkeep : l.content.reverse.dropWhile (fun c => c = '\r' || c = '\n') = l.content.reverse := by
    rw [List.dropWhile_eq_self_iff]
    exact fun hlength => hother _ (List.mem_reverse.1 (List.getElem_mem hlength))
  rw [visible, hkeep, List.reverse_reverse]

section

variable {above start : List Char} (habove : above = [] ∨ ∃ before, above = before ++ ['\n']) (hstart : '\n' ∉ start)
  {after : List Char} (hr : '\r' ∉ start ++ after)

include habove hstart hr

/-- A column of the line that a place is in. -/
private theorem offsetAt_lineStart (n : Nat) :
    offsetAt (above ++ start ++ after) (Position.start.after (above ++ start)).line (n + 1) =
      some (utf8Size above + utf8Size ((start ++ after.takeWhile (· ≠ '\n')).take n)) := by
  have hline : (Position.start.after (above ++ start)).line ≠ 0 := by
    rw [Position.line_after]
    show 1 + _ ≠ 0
    omega
  have hsub : ∀ c ∈ start ++ after.takeWhile (· ≠ '\n'), c ∈ start ++ after := by
    intro c hc
    rw [List.mem_append] at hc ⊢
    exact hc.imp_right fun h => (List.takeWhile_prefix _).subset h
  have hr' : '\r' ∉ start ++ after.takeWhile (· ≠ '\n') := fun h => hr (hsub _ h)
  have hn : '\n' ∉ start ++ after.takeWhile (· ≠ '\n') := by
    rw [List.mem_append, not_or]
    exact ⟨hstart, fun h => by simpa using List.mem_takeWhile_imp h⟩
  rw [offsetAt, if_neg hline, getElem?_linesOf habove hstart after, Option.map_some, Line.bytesBefore,
    Line.visible_eq hr' hn, Nat.add_sub_cancel]

end

variable {before after : List Char} (hr : '\r' ∉ before ++ after)

include hr

/-- From a place, columns go on through the characters of its line. -/
theorem offsetAt_after_add (n : Nat) :
    let p := Position.start.after before
    offsetAt (before ++ after) p.line (p.column + n) =
      some (utf8Size before + utf8Size ((after.takeWhile (· ≠ '\n')).take n)) := by
  intro p
  obtain ⟨above, start, rfl, hstart, habove⟩ := exists_lineStart before
  have hcolumn : p.column + n = (start.length + n) + 1 := by
    show (Position.start.after _).column + n = _
    rw [Position.column_after_start habove hstart]
    omega
  have hr' : '\r' ∉ start ++ after := fun h => hr (by rw [List.append_assoc]; exact List.mem_append_right _ h)
  rw [hcolumn, offsetAt_lineStart habove hstart hr', List.take_length_add_append]
  simp [Nat.add_assoc]

/-- Line and column of a place lead back to it. -/
theorem offsetAt_after_of_not_mem :
    let p := Position.start.after before
    offsetAt (before ++ after) p.line p.column = some (utf8Size before) :=
  offsetAt_after_add hr 0

/-- The columns in front of a place lead to places in front of it. -/
theorem exists_offsetAt_lt {column : Nat} (h0 : column ≠ 0) (h : column < (Position.start.after before).column) :
    ∃ offset, offsetAt (before ++ after) (Position.start.after before).line column = some offset ∧
      offset < utf8Size before := by
  obtain ⟨above, start, rfl, hstart, habove⟩ := exists_lineStart before
  obtain ⟨n, rfl⟩ := Nat.exists_eq_succ_of_ne_zero h0
  have hn : n < start.length := by
    rw [Position.column_after_start habove hstart] at h
    omega
  have hr' : '\r' ∉ start ++ after := fun h => hr (by rw [List.append_assoc]; exact List.mem_append_right _ h)
  refine ⟨_, offsetAt_lineStart habove hstart hr' n, ?_⟩
  have hdrop : start.drop n = start[n] :: start.drop (n + 1) := List.drop_eq_getElem_cons hn
  have hsize : utf8Size start = utf8Size (start.take n) + utf8Size (start.drop n) := by
    rw [← utf8Size_append, List.take_append_drop]
  have hpos := start[n].utf8Size_pos
  rw [hdrop, utf8Size_cons] at hsize
  rw [List.take_append_of_le_length (Nat.le_of_lt hn), utf8Size_append]
  omega

omit hr

theorem sizeBefore_append (before : List Char) (c : Char) (after : List Char) :
    sizeBefore (before ++ c :: after) (utf8Size before + c.utf8Size) = c.utf8Size := by
  have hc := c.utf8Size_pos
  induction before with
  | nil =>
    rw [List.nil_append, sizeBefore, utf8Size_nil, Nat.zero_add, if_neg (by omega), if_pos (Nat.le_refl _)]
  | cons d before ih =>
    rw [List.cons_append, sizeBefore, utf8Size_cons, if_neg (by omega), if_neg (by omega), ← ih]
    congr 1
    omega

end MapMarkup
