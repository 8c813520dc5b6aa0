import Mathlib.Data.List.DropRight
import Mathlib.Data.List.Induction
import MapMarkup.Proofs.DocumentReferences
import MapMarkup.Proofs.Journal
import MapMarkup.Proofs.OpenRecords
import MapMarkup.Proofs.TemplateScope

/-!
# Template variables along any events

What is known about template variables is forgotten where a document starts or ends, where it is to be forgotten, and
where an `extent` ends that has started. So it comes from a window of the run, the start tags since the last such event
(`windowTags`), and it is what a new state would know after these tags alone (`State.inputs_run`). An end tag that takes
no element off does not count, so that the elements that are open have a part in where a window ends.

The end of an `extent` says of each variable in the window that no input there has it as its name, and no other event
says so of any variable. Where a window has ended, only the events from there on and the elements that are open decide
what is said later (`State.unboundVariables_window`).
-/

namespace MapMarkup

open Event (emptyElement track trackAll)
open Vocabulary

/-! ### Windows -/

namespace Event

/-- The events, each with the elements that are open in front of it. -/
def tracked (opened : List ElementName) : List Event → List (List ElementName × Event)
  | [] => []
  | e :: events => (opened, e) :: tracked (track opened e) events

private theorem tracked_append (opened : List ElementName) (es fs : List Event) :
    tracked opened (es ++ fs) = tracked opened es ++ tracked (trackAll opened es) fs := by
  induction es generalizing opened with
  | nil => rfl
  | cons e es ih => rw [List.cons_append, tracked, ih, tracked, List.cons_append]; rfl

private theorem map_tracked (opened : List ElementName) (events : List Event) :
    (tracked opened events).map (·.2) = events := by
  induction events generalizing opened with
  | nil => rfl
  | cons e events ih => rw [tracked, List.map_cons, ih]

/-- Whether nothing is known about variables behind an event, in front of which the elements are open. -/
def endsWindow (opened : List ElementName) : Event → Bool
  | startDocument | endDocument | reset => true
  | endElement _ uri name => uri = xhtml && name = "extent" && !opened.isEmpty
  | startElement .. | characters _ | sourceIsCss _ => false

end Event

namespace Rules

/-- The start tags behind the last of the events that ends a window; `opened` are the elements that are open in front of
the events. -/
def windowTags (opened : List ElementName) (events : List Event) : List StartTag :=
  startTags (((Event.tracked opened events).rtakeWhile fun e => !e.2.endsWindow e.1).map (·.2))

private theorem windowTags_concat (opened : List ElementName) (events : List Event) (e : Event) :
    windowTags opened (events ++ [e]) =
      if e.endsWindow (trackAll opened events) then [] else windowTags opened events ++ (startTag? e).toList := by
  unfold windowTags
  rw [Event.tracked_append, Event.tracked, Event.tracked, List.rtakeWhile_concat]
  cases e.endsWindow (trackAll opened events) with
  | true => rfl
  | false =>
    simp only [Bool.not_false, ↓reduceIte, List.map_append, startTags_append, Bool.false_eq_true]
    cases ht : startTag? e <;> simp [startTags, ht]

private theorem mem_startTags_of_mem_windowTags {opened : List ElementName} {events : List Event} {t : StartTag}
    (h : t ∈ windowTags opened events) : t ∈ startTags events := by
  have hwindow : windowTags opened events <:+ startTags ((Event.tracked opened events).map (·.2)) :=
    ((List.rtakeWhile_suffix _ _).map _).filterMap startTag?
  rw [Event.map_tracked] at hwindow
  exact hwindow.subset h

/-- The variables in the templates of the links among the tags, as far as no input or `select` among them has the
variable as its name. -/
def strayVariables (tags : List StartTag) : List Reference :=
  dangling (fun t => if t.name = "select" ∨ t.name = "input" then t.values "name" else [])
    (fun t => if t.name = "link" then ((t.values "tref").flatMap Text.templateVariables).map t.refer else []) tags

/-- What is to be said about variables at an event behind others, if the elements `opened` are open in front of these
and nothing is known about variables there. -/
def variablesAt (opened : List ElementName) (events : List Event) (e : Event) : List Reference :=
  if e.endsExtent && !(trackAll opened events).isEmpty then strayVariables (windowTags opened events) else []

private theorem StartTag.inputNames_eq {t : StartTag} (h : t.attributes.Distinct) :
    t.inputNames = if t.name = "select" ∨ t.name = "input" then t.values "name" else [] := by
  rw [inputNames, values_eq_last? h]
  simp only [Bool.or_eq_true, decide_eq_true_eq]

private theorem StartTag.variableReferences_eq {t : StartTag} (h : t.attributes.Distinct) :
    t.variableReferences =
      if t.name = "link" then ((t.values "tref").flatMap Text.templateVariables).map t.refer else [] := by
  rw [variableReferences, templateVariables, values_eq_last? h]
  split
  · cases t.last? "tref" <;> simp
  · rfl

private theorem strayVariables_eq {tags : List StartTag} (h : ∀ t ∈ tags, t.attributes.Distinct) :
    dangling StartTag.inputNames StartTag.variableReferences tags = strayVariables tags :=
  dangling_congr (fun t ht => StartTag.inputNames_eq (h t ht)) fun t ht => StartTag.variableReferences_eq (h t ht)

private theorem startTags_map_event (tags : List StartTag) : startTags (tags.map StartTag.event) = tags := by
  have hevent : startTag? ∘ StartTag.event = some := funext fun t => startTag?_eq_some_iff.2 rfl
  rw [startTags, List.filterMap_map, hevent, List.filterMap_some]

namespace State

/-! ### What is known and what is said -/

/-- Nothing is said about variables but at the end of an `extent` that takes an element off. -/
private theorem unboundVariables_notices_eq_nil {s : State} {e : Event} (h : e.endsExtent = false ∨ s.frames = []) :
    unboundVariables (s.notices e) = [] := by
  refine List.filterMap_eq_nil_iff.2 fun n hn => ?_
  cases n with
  | styleAttribute | stylesheet => rfl
  | violation v locator =>
    cases v with
    | unboundVariable name =>
      have hend : e.ends "extent" := isSaidAt_of_mem hn
      cases e with
      | endElement locator' uri name' =>
        rcases h with h | h
        · exact absurd hend (by rw [Event.ends, ← Event.endsExtent, h]; exact Bool.false_ne_true)
        · simp [notices, h] at hn
      | startDocument | endDocument | reset | startElement | characters | sourceIsCss => cases hend
    | _ => rfl

section

variable {s : State} {opened : List ElementName} (hs : s.frames.map (·.name) = opened.map knownName)

include hs

private theorem frames_eq_nil_iff : s.frames = [] ↔ opened = [] := by
  rw [← List.map_eq_nil_iff (f := fun f : Frame => f.name), hs, List.map_eq_nil_iff]

/-- An event ends the window, or its start tag adds to what is known, or nothing changes. -/
private theorem inputs_next (e : Event) :
    (s.next e).inputs =
      if e.endsWindow opened then {}
      else (startTag? e).elim s.inputs fun t => (s.inputs.define t.inputNames).refer t.variableReferences := by
  cases e with
  | startDocument | endDocument | reset | characters | sourceIsCss => rfl
  | startElement locator uri name attributes =>
    by_cases hu : uri = xhtml
    · subst hu
      rw [next_start s ⟨locator, name, attributes⟩, startTag?_startElement]
      rfl
    · rw [next_startOther s locator name attributes hu]
      simp only [startTag?, hu, ↓reduceIte]
      rfl
  | endElement locator uri name =>
    rcases hf : s.frames with _ | ⟨f, outer⟩
    · rw [next_end_nil hf, (frames_eq_nil_iff hs).1 hf]
      simp [Event.endsWindow, startTag?]
    · have hopen : opened.isEmpty = false := by
        rw [List.isEmpty_eq_false_iff, ne_eq, ← frames_eq_nil_iff hs, hf]
        exact List.cons_ne_nil f outer
      rw [next_end_cons hf]
      simp [Event.endsWindow, startTag?, finish, hopen]

/-- What is known about variables is what the start tags of the window alone would let a new state know. -/
theorem inputs_run (hinputs : s.inputs = {}) (events : List Event) :
    (s.run events).inputs = (({} : State).run ((windowTags opened events).map StartTag.event)).inputs := by
  induction events using List.reverseRecOn with
  | nil => exact hinputs
  | append_singleton events e ih =>
    rw [windowTags_concat, run_append, run_cons, run_nil, inputs_next (names_run hs events)]
    split
    · rfl
    · cases ht : startTag? e with
      | none => rw [Option.toList_none, List.append_nil, ← ih, Option.elim_none]
      | some t =>
        rw [Option.toList_some, List.map_append, run_append, Option.elim_some, ih]
        rfl

private theorem unresolved_inputs_window (hinputs : s.inputs = {}) {events : List Event}
    (hd : ∀ t ∈ startTags events, t.attributes.Distinct) :
    (s.run events).inputs.unresolved = strayVariables (windowTags opened events) := by
  have hwindow : ∀ t ∈ windowTags opened events, t.attributes.Distinct :=
    fun t ht => hd t (mem_startTags_of_mem_windowTags ht)
  rw [inputs_run hs hinputs, registers_inputs.unresolved_run (s := {}) rfl, startTags_map_event,
    strayVariables_eq hwindow]
  intro e he
  obtain ⟨t, -, rfl⟩ := List.mem_map.1 he
  exact ⟨rfl, Bool.false_ne_true⟩

private theorem unboundVariables_run (hinputs : s.inputs = {}) {events : List Event}
    (hd : ∀ t ∈ startTags events, t.attributes.Distinct) (e : Event) :
    unboundVariables ((s.run events).notices e) = variablesAt opened events e := by
  have hframes := frames_eq_nil_iff (names_run hs events)
  unfold variablesAt
  split
  · rename_i hend
    rw [Bool.and_eq_true, Bool.not_eq_true', List.isEmpty_eq_false_iff, ne_eq, ← hframes] at hend
    obtain ⟨locator, rfl⟩ := Event.eq_of_endsExtent hend.1
    rw [unboundVariables_notices (mt List.eq_nil_of_length_eq_zero hend.2), unresolved_inputs_window hs hinputs hd]
  · rename_i hend
    refine unboundVariables_notices_eq_nil ?_
    rw [hframes]
    simpa [or_iff_not_imp_left] using hend

end

/-- Along any events the end of an `extent` that takes an element off says of each variable in the window before it, at
the place of its link, that no input in the window has it as its name, and no other event says so of a variable. Behind
an event that ends a window nothing in front of it matters but which elements are open. -/
theorem unboundVariables_window (sourceIsCss : Bool) {past : List Event}
    (hd : ∀ t ∈ startTags past, t.attributes.Distinct) (e : Event) :
    let s := ({ sourceIsCss } : State).run past
    let opened := trackAll [] past
    unboundVariables (s.notices e) = variablesAt [] past e ∧
    (e.endsWindow opened → ∀ later, (∀ t ∈ startTags later, t.attributes.Distinct) → ∀ e',
      unboundVariables (((s.next e).run later).notices e') = variablesAt (track opened e) later e') := by
  intro s opened
  have hnames : s.frames.map (·.name) = opened.map knownName := names_run rfl past
  refine ⟨unboundVariables_run rfl rfl hd e, fun hends later hlater => ?_⟩
  exact unboundVariables_run (names_next hnames e) (by rw [inputs_next hnames, if_pos hends]) hlater

/-- An `extent`, an end tag that takes no element off, a link, and an `extent` with a `select` and another link. -/
def severalWindows : List Event :=
  [.startDocument, .startElement ⟨1, 9, none, none⟩ xhtml "extent" []] ++
  emptyElement 2 "link" [("tref", "\x7ba\x7d")] ++ emptyElement 3 "input" [("name", "x")] ++
  [.endElement ⟨4, 10, none, none⟩ xhtml "extent", .endElement ⟨5, 10, none, none⟩ xhtml "extent"] ++
  emptyElement 6 "link" [("tref", "\x7bz\x7d")] ++
  [.endElement ⟨7, 10, none, none⟩ xhtml "extent", .startElement ⟨8, 9, none, none⟩ xhtml "extent" []] ++
  emptyElement 9 "link" [("tref", "\x7bx\x7d/\x7by\x7d/\x7bx\x7d")] ++ emptyElement 10 "select" [("name", "y")]

/-- The variable of the link between the two counts, and the names in the first one do not. A `select` does not count
for a later `extent`. -/
theorem unboundVariables_window_severalWindows :
    let s := ({} : State).run severalWindows
    let e : Event := .endElement ⟨11, 10, none, none⟩ xhtml "extent"
    let later := .startElement ⟨12, 9, none, none⟩ xhtml "extent" [] :: emptyElement 13 "link" [("tref", "\x7by\x7d")]
    (∀ t ∈ startTags severalWindows, t.attributes.Distinct) ∧ e.endsWindow (trackAll [] severalWindows) ∧
    (∀ t ∈ startTags later, t.attributes.Distinct) ∧
    unboundVariables (s.notices e) =
      [⟨⟨6, 40, none, none⟩, "z"⟩, ⟨⟨9, 40, none, none⟩, "x"⟩, ⟨⟨9, 40, none, none⟩, "x"⟩] ∧
    unboundVariables (((s.next e).run later).notices e) = [⟨⟨13, 40, none, none⟩, "y"⟩] := by
  intro s e later
  have hd : ∀ t ∈ startTags severalWindows, t.attributes.Distinct := by decide
  have hends : e.endsWindow (trackAll [] severalWindows) := by decide
  have hlater : ∀ t ∈ startTags later, t.attributes.Distinct := by decide
  obtain ⟨hsaid, hsaidLater⟩ := unboundVariables_window false hd e
  refine ⟨hd, hends, hlater, hsaid.trans ?_, (hsaidLater hends later hlater e).trans ?_⟩
  · decide +kernel
  · decide +kernel

end State

end Rules

end MapMarkup
