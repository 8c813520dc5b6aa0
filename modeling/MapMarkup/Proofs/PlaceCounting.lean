import Mathlib.Data.List.DropRight
import MapMarkup.Proofs.Spans
import MapMarkup.Proofs.Splitting

/-!
# Places counted on from tag to tag

The place just past a tag need not be counted from the start of the document. It is enough to keep one place and, at the
end of each tag, to count on to its offset over what stands between (`Position.countTo?`), as a reader with
`Reader.counter?` does. The stretches that are counted make up the document up to the tag (`Reader.CountedTo`): none is
left out or counted twice, and the offsets between them are never inside a character.

So the locator of the start or the end of an element has one line for each line feed up to the end of its tag, and one
column for each character since the last of these, and locators never go back (`Reader.locators_counted`).
-/

namespace MapMarkup

/-! ### Counting on -/

namespace Position

/-- Counts on to an offset of a text, unless that has been passed already. There is no such place if one of the offsets
counted from and to is inside a character, or if the text is shorter. -/
def countTo? (text : List Char) (p : Position) (offset : Nat) : Option Position :=
  if offset ≤ p.offset then some p
  else (slice? text p.offset offset).map fun between => { p.after between with offset }

private theorem offset_start_after (cs : List Char) : (start.after cs).offset = utf8Size cs := by
  rw [offset_after, start, Nat.zero_add]

/-- From the end of one part of a text to the end of a longer one, what stands between is counted. -/
private theorem countTo?_after (counted between rest : List Char) :
    countTo? (counted ++ (between ++ rest)) (start.after counted) (utf8Size (counted ++ between)) =
      some (start.after (counted ++ between)) := by
  have hoffset : (start.after (counted ++ between)).offset = utf8Size (counted ++ between) := offset_start_after _
  unfold countTo?
  rw [offset_start_after]
  split
  · rename_i hle
    have hzero : utf8Size between = 0 := by
      rw [utf8Size_append] at hle
      omega
    rw [eq_nil_of_utf8Size_eq_zero hzero, List.append_nil]
  · rw [utf8Size_append, slice?_append, Option.map_some, ← after_append, ← utf8Size_append, ← hoffset]

/-- The column of a place counts the characters since the last line feed. -/
private theorem column_start_after (cs : List Char) :
    (start.after cs).column = 1 + (cs.rtakeWhile (· ≠ '\n')).length := by
  have habove : cs.rdropWhile (· ≠ '\n') = [] ∨ ∃ before, cs.rdropWhile (· ≠ '\n') = before ++ ['\n'] := by
    refine or_iff_not_imp_left.2 fun hne => ⟨(cs.rdropWhile (· ≠ '\n')).dropLast, ?_⟩
    have hlast : (cs.rdropWhile (· ≠ '\n')).getLast hne = '\n' := by
      simpa using List.rdropWhile_last_not (· ≠ '\n') cs hne
    conv_lhs => rw [← List.dropLast_append_getLast hne, hlast]
  have hline : '\n' ∉ cs.rtakeWhile (· ≠ '\n') := fun h => by simpa using List.mem_rtakeWhile_imp h
  rw [Nat.add_comm, ← column_after_start habove hline, List.rdropWhile_append_rtakeWhile]

end Position

/-- A place does not come after another one in the text. -/
def Locator.Precedes (l m : Locator) : Prop :=
  l.line < m.line ∨ l.line = m.line ∧ l.column ≤ m.column

/-- Over a text, a place goes to a later line, or on in the same line. -/
private theorem Position.precedes_after (p : Position) (cs : List Char) (id id' : Option String) :
    Locator.Precedes ⟨p.line, p.column, id, none⟩ ⟨(p.after cs).line, (p.after cs).column, id', none⟩ := by
  by_cases hnew : '\n' ∈ cs
  · left
    have hcount : 0 < cs.count '\n' := List.count_pos_iff.2 hnew
    show p.line < (p.after cs).line
    rw [line_after]
    omega
  · right
    refine ⟨?_, ?_⟩
    · show p.line = (p.after cs).line
      rw [line_after, List.count_eq_zero_of_not_mem hnew, Nat.add_zero]
    · show p.column ≤ (p.after cs).column
      rw [column_after_of_not_mem hnew]
      exact Nat.le_add_right _ _

namespace Xml.Reader

/-- The offset just past the tag, if the token of a call ends one. -/
def tagEnd? (r : Reader) (k : Nat) : Option Nat :=
  if (r.afterCalls k).stage = .finished then none
  else
    match (r.afterCalls k).lexer.next? with
    | .ok (some (t, lexer)) => if t.isTagEnd then some lexer.cursor.position.offset else none
    | _ => none

/-- The place that has been counted in front of a call, if it is counted on at the end of each tag. -/
def counter? (source : List Char) (r : Reader) : Nat → Option Position
  | 0 => some .start
  | k + 1 => (r.counter? source k).bind fun p => (r.tagEnd? k).elim (some p) (p.countTo? source)

/-- In front of a call, a part of the document has been counted, and a reader that goes on stands behind it. -/
structure CountedTo (source : List Char) (r : Reader) (k : Nat) (counted : List Char) : Prop where
  counter?_eq : r.counter? source k = some (Position.start.after counted)
  isPrefix : counted <+: source
  goesOn : (r.afterCalls k).stage ≠ .finished →
    ∃ between, source = counted ++ (between ++ (r.afterCalls k).lexer.cursor.rest)

section

variable {source : List Char} {systemId : Option String} {k : Nat} {counted : List Char}

/-- A reader that has not finished behind a call has read a token in it. -/
private theorem token_of_stage_ne {r : Reader} (h : (r.afterCalls (k + 1)).stage ≠ .finished) :
    (r.call k).2 = .token := by
  by_contra hne
  exact h (stage_of_ne_token hne)

/-- What has been counted stays so in a call that ends no tag. -/
private theorem CountedTo.succ_of_none {r : Reader} (h : r.CountedTo source k counted) (hend : r.tagEnd? k = none) :
    r.CountedTo source (k + 1) counted where
  counter?_eq := by rw [counter?, h.counter?_eq, hend]; rfl
  isPrefix := h.isPrefix
  goesOn hstage := by
    have htoken := token_of_stage_ne hstage
    obtain ⟨t, lexer, opened, entities, events, -, hnext, -, -, hafter⟩ := exists_of_call_token htoken
    obtain ⟨between, hsource⟩ := h.goesOn (stage_ne_of_token htoken)
    obtain ⟨used, hused, -⟩ := (Lexer.reaches_of_next? hnext).split
    refine ⟨between ++ used, ?_⟩
    rw [hafter, List.append_assoc, ← hused]
    exact hsource

/-- What it means that the token of a call ends a tag. -/
private theorem exists_of_tagEnd? {r : Reader} {offset : Nat} (h : r.tagEnd? k = some offset) :
    (r.afterCalls k).stage ≠ .finished ∧
      ∃ t lexer, (r.afterCalls k).lexer.next? = .ok (some (t, lexer)) ∧ t.isTagEnd := by
  unfold tagEnd? at h
  split at h
  · cases h
  · rename_i hstage
    split at h
    · rename_i t lexer hnext
      exact ⟨hstage, t, lexer, hnext, (Option.ite_none_right_eq_some.1 h).1⟩
    · cases h

/-- A call that ends a tag counts on to its end, even if it fails then. -/
private theorem CountedTo.succ_of_tagEnd {t : Token} {lexer : Lexer}
    (h : (start source systemId).CountedTo source k counted)
    (hstage : ((start source systemId).afterCalls k).stage ≠ .finished)
    (hnext : ((start source systemId).afterCalls k).lexer.next? = .ok (some (t, lexer))) (ht : t.isTagEnd) :
    ∃ stretch, source = counted ++ stretch ++ lexer.cursor.rest ∧
      (start source systemId).CountedTo source (k + 1) (counted ++ stretch) := by
  obtain ⟨between, hsource⟩ := h.goesOn hstage
  have hreached := Lexer.reaches_of_next? hnext
  obtain ⟨used, hused, -⟩ := hreached.split
  have hsource : source = counted ++ ((between ++ used) ++ lexer.cursor.rest) := by
    rw [List.append_assoc, ← hused]
    exact hsource
  obtain ⟨past, hpast, hposition⟩ := ((reaches_afterCalls source systemId k).1.trans hreached).split
  have hbefore : past = counted ++ (between ++ used) := by
    have : past ++ lexer.cursor.rest = (counted ++ (between ++ used)) ++ lexer.cursor.rest := by
      rw [List.append_assoc, ← hsource]
      exact hpast.symm
    exact List.append_cancel_right this
  have hend : (start source systemId).tagEnd? k = some (utf8Size (counted ++ (between ++ used))) := by
    rw [tagEnd?, if_neg hstage, hnext]
    dsimp only
    rw [if_pos ht, hposition, hbefore]
    exact congrArg some (Position.offset_start_after _)
  have hsource' : source = counted ++ (between ++ used) ++ lexer.cursor.rest := by rw [List.append_assoc, ← hsource]
  refine ⟨between ++ used, hsource', ?_, ⟨lexer.cursor.rest, hsource'.symm⟩, fun hgoes => ⟨[], ?_⟩⟩
  · rw [counter?, h.counter?_eq, hend, Option.bind_some, Option.elim_some]
    conv_lhs => rw [hsource]
    exact Position.countTo?_after counted (between ++ used) lexer.cursor.rest
  · obtain ⟨t', lexer', opened, entities, events, -, hnext', -, -, hafter⟩ :=
      exists_of_call_token (token_of_stage_ne hgoes)
    rw [hnext] at hnext'
    obtain ⟨rfl, rfl⟩ := Prod.mk.inj (Option.some.inj (Except.ok.inj hnext'))
    rw [hafter]
    exact hsource'

/-- A call counts on over a stretch behind what has been counted. -/
private theorem CountedTo.succ (h : (start source systemId).CountedTo source k counted) :
    ∃ stretch, (start source systemId).CountedTo source (k + 1) (counted ++ stretch) := by
  cases hend : (start source systemId).tagEnd? k with
  | none => exact ⟨[], (List.append_nil counted).symm ▸ h.succ_of_none hend⟩
  | some offset =>
    obtain ⟨hstage, t, lexer, hnext, ht⟩ := exists_of_tagEnd? hend
    obtain ⟨stretch, -, hcounted⟩ := h.succ_of_tagEnd hstage hnext ht
    exact ⟨stretch, hcounted⟩

/-- Over the whole document, what has been counted is a part from its start. -/
private theorem exists_countedTo (source : List Char) (systemId : Option String) (k : Nat) :
    ∃ counted, (start source systemId).CountedTo source k counted := by
  induction k with
  | zero =>
    obtain ⟨mark, hmark, -⟩ := (reaches_afterCalls source systemId 0).1.split
    exact ⟨[], rfl, List.nil_prefix, fun _ => ⟨mark, hmark⟩⟩
  | succ k ih =>
    obtain ⟨counted, h⟩ := ih
    obtain ⟨stretch, hstretch⟩ := h.succ
    exact ⟨counted ++ stretch, hstretch⟩

/-- Behind the call that has ended a tag, the document has been counted up to the end of the tag. -/
private theorem EndsTag.countedTo {e : Event} {before : List Char}
    (h : (start source systemId).EndsTag source k e before) :
    (start source systemId).CountedTo source (k + 1) (before ++ ['>']) := by
  obtain ⟨t, ht, hend⟩ := h.token
  have htoken := call_of_tokenOfCall ht
  obtain ⟨t', lexer, opened, entities, events, ht', hnext, -, -, hafter⟩ := exists_of_call_token htoken
  obtain rfl := Option.some.inj (ht.symm.trans ht')
  obtain ⟨counted, hcounted⟩ := exists_countedTo source systemId k
  obtain ⟨stretch, hpast, hcounts⟩ := hcounted.succ_of_tagEnd (stage_ne_of_token htoken) hnext hend
  have hrest : ((start source systemId).afterCalls (k + 1)).lexer.cursor.rest = lexer.cursor.rest := by rw [hafter]
  have htext := h.text
  rw [hrest, ← List.singleton_append, ← List.append_assoc, hpast] at htext
  exact List.append_cancel_right htext ▸ hcounts

/-! ### Later calls -/

/-- Later calls stand further on in the document. -/
private theorem reaches_of_le {r : Reader} {i j : Nat} (h : i ≤ j) :
    (r.afterCalls i).lexer.cursor.Reaches (r.afterCalls j).lexer.cursor := by
  induction j, h using Nat.le_induction with
  | base => exact .refl _
  | succ j _ ih =>
    refine ih.trans ?_
    by_cases htoken : (r.call j).2 = .token
    · obtain ⟨t, lexer, opened, entities, events, -, hnext, -, -, hafter⟩ := exists_of_call_token htoken
      rw [hafter]
      exact Lexer.reaches_of_next? hnext
    · rw [(afterCalls_succ_of_ne_token htoken).1]
      exact .refl _

/-- Of two calls, the later one does not end a tag in front of the tag that the other one ends. -/
private theorem EndsTag.exists_append {r : Reader} {i j : Nat} {d e : Event} {before before' : List Char} (hij : i ≤ j)
    (h : r.EndsTag source i d before) (h' : r.EndsTag source j e before') :
    ∃ between, before' ++ ['>'] = before ++ ['>'] ++ between := by
  obtain ⟨between, hbetween, -⟩ := (reaches_of_le (r := r) (Nat.succ_le_succ hij)).split
  refine ⟨between, ?_⟩
  have htext : before' ++ ['>'] ++ (r.afterCalls (j + 1)).lexer.cursor.rest =
      before ++ ['>'] ++ between ++ (r.afterCalls (j + 1)).lexer.cursor.rest := by
    rw [List.append_assoc _ between, ← hbetween, List.append_assoc, List.append_assoc, List.singleton_append,
      List.singleton_append, ← h.text, ← h'.text]
  exact List.append_cancel_right htext

end

/-- Along all calls on a document, the place that is counted on from tag to tag is that of a part from the start of the
document, a call goes on with the stretch behind that part, and the place is never lost inside a character. Each event
of an element comes from a call that ends a tag; up to the end of the tag the document has been counted then, and the
locator of the event has that place: a line for each line feed, and a column for each character since the last one.
Locators never go back. -/
theorem locators_counted (source : List Char) (systemId : Option String) :
    let r : Reader := start source systemId
    (∀ k, ∃ counted stretch, counted ++ stretch <+: source ∧
      r.counter? source k = some (Position.start.after counted) ∧
      r.counter? source (k + 1) = some (Position.start.after (counted ++ stretch))) ∧
    (∀ k, ∀ e ∈ (r.call k).1, ∀ locator, e.locator? = some locator →
      ∃ before place, r.EndsTag source k e before ∧ r.counter? source (k + 1) = some place ∧
        place.offset = utf8Size (before ++ ['>']) ∧
        place.line = 1 + (before ++ ['>']).count '\n' ∧
        place.column = 1 + ((before ++ ['>']).rtakeWhile (· ≠ '\n')).length ∧
        locator = ⟨place.line, place.column, systemId, none⟩) ∧
    (r.events.filterMap Event.locator?).Pairwise Locator.Precedes := by
  intro r
  have hplace (k : Nat) (e : Event) (he : e ∈ (r.call k).1) (locator : Locator) (hl : e.locator? = some locator) :
      ∃ before, r.EndsTag source k e before ∧
        locator = let p := Position.start.after (before ++ ['>']); ⟨p.line, p.column, systemId, none⟩ := by
    obtain ⟨t, before, ht, hend, htext, hlocator⟩ := exists_tagEnd source systemId he hl
    exact ⟨before, ⟨he, ⟨t, ht, hend⟩, htext⟩, hlocator⟩
  refine ⟨fun k => ?_, fun k e he locator hl => ?_, ?_⟩
  · obtain ⟨counted, h⟩ := exists_countedTo source systemId k
    obtain ⟨stretch, hstretch⟩ := h.succ
    exact ⟨counted, stretch, hstretch.isPrefix, h.counter?_eq, hstretch.counter?_eq⟩
  · obtain ⟨before, hends, hlocator⟩ := hplace k e he locator hl
    exact ⟨before, _, hends, hends.countedTo.counter?_eq, Position.offset_start_after _, Position.line_after _ _,
      Position.column_start_after _, hlocator⟩
  · -- Whichever two calls the events come from, their tags are in the order of the calls.
    have hprecedes {i j : Nat} (hij : i ≤ j) (l : Locator) (hl : l ∈ (r.call i).1.filterMap Event.locator?)
        (m : Locator) (hm : m ∈ (r.call j).1.filterMap Event.locator?) : l.Precedes m := by
      obtain ⟨d, hd, hl⟩ := List.mem_filterMap.1 hl
      obtain ⟨e, he, hm⟩ := List.mem_filterMap.1 hm
      obtain ⟨before, hends, rfl⟩ := hplace i d hd l hl
      obtain ⟨before', hends', rfl⟩ := hplace j e he m hm
      obtain ⟨between, hbetween⟩ := hends.exists_append hij hends'
      have hafter := Position.after_append .start (before ++ ['>']) between
      rw [hbetween, hafter]
      exact Position.precedes_after (Position.start.after (before ++ ['>'])) between _ _
    obtain ⟨n, -, outcome, ho, hstops⟩ := exists_stopsAt source systemId
    rw [events_eq hstops ho, eventsOfCalls_eq, List.filterMap_flatMap, List.pairwise_flatMap]
    refine ⟨fun k _ => List.pairwise_of_forall_mem_list (hprecedes (Nat.le_refl k)), ?_⟩
    exact (List.pairwise_lt_range).imp fun hij => hprecedes (Nat.le_of_lt hij)

end Xml.Reader

end MapMarkup
