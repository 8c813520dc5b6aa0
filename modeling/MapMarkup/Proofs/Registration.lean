import MapMarkup.Proofs.Run

/-!
# References along a run

Several parts of the state collect names and references to them from the start tags of a scope. Each of them is read
when the scope ends, and then it does not matter in which order names and references have come: the references that are
unresolved are those to names that no start tag of the scope gives (`Registers.unresolved_run`). What each part takes
from a start tag, and which events leave it alone, is said once for each part (`registers_controls`, `registers_forms`,
`registers_lists`, `registers_inputs`).
-/

namespace MapMarkup

namespace Event

/-- Whether an event belongs to the content of a document: its elements and its character data. -/
def isContent : Event → Bool
  | startElement .. | endElement .. | characters _ => true
  | startDocument | endDocument | reset | sourceIsCss _ => false

/-- Whether an event is the end of an `extent`. -/
def endsExtent : Event → Bool
  | endElement _ uri name => uri = Vocabulary.xhtml && name = "extent"
  | _ => false

/-- An element of the vocabulary without content, which starts and ends on the given line. -/
def emptyElement (line : Nat) (name : String) (pairs : List (String × String)) : List Event := [
  startElement ⟨line, 40, none, none⟩ Vocabulary.xhtml name (.ofPairs pairs),
  endElement ⟨line, 50, none, none⟩ Vocabulary.xhtml name]

end Event

namespace Rules

open Vocabulary

/-- The start tag of an element of the vocabulary. -/
def startTag? : Event → Option StartTag
  | .startElement locator uri name attributes => if uri = xhtml then some ⟨locator, name, attributes⟩ else none
  | _ => none

theorem startTag?_startElement (locator : Locator) (name : String) (attributes : Attributes) :
    startTag? (.startElement locator xhtml name attributes) = some ⟨locator, name, attributes⟩ := by
  simp only [startTag?, ↓reduceIte]

/-- The start tags of elements of the vocabulary, in order. -/
def startTags (events : List Event) : List StartTag :=
  events.filterMap startTag?

@[simp] theorem startTags_nil : startTags [] = [] := rfl

private theorem startTags_cons_of_none {e : Event} (h : startTag? e = none) (events : List Event) :
    startTags (e :: events) = startTags events :=
  List.filterMap_cons_none h

theorem startTags_cons_of_some {e : Event} {t : StartTag} (h : startTag? e = some t) (events : List Event) :
    startTags (e :: events) = t :: startTags events :=
  List.filterMap_cons_some h

theorem mem_startTags_cons (e : Event) {t : StartTag} {events : List Event} (h : t ∈ startTags events) :
    t ∈ startTags (e :: events) := by
  rcases he : startTag? e with _ | t'
  · rw [startTags_cons_of_none he]
    exact h
  · rw [startTags_cons_of_some he]
    exact List.mem_cons_of_mem t' h

theorem startTags_append (es fs : List Event) : startTags (es ++ fs) = startTags es ++ startTags fs :=
  List.filterMap_append

/-- The references that some start tags make to names that none of them gives, in the order in which they are made. -/
def dangling (names : StartTag → List String) (references : StartTag → List Reference) (tags : List StartTag) :
    List Reference :=
  (tags.flatMap references).filter fun r => r.name ∉ tags.flatMap names

theorem dangling_congr {names names' : StartTag → List String} {references references' : StartTag → List Reference}
    {tags : List StartTag} (hn : ∀ t ∈ tags, names t = names' t) (hr : ∀ t ∈ tags, references t = references' t) :
    dangling names references tags = dangling names' references' tags := by
  simp only [dangling, List.flatMap_def, List.map_congr_left hn, List.map_congr_left hr]

private theorem dangling_append (names : StartTag → List String) (references : StartTag → List Reference)
    (outside inside : List StartTag) :
    dangling names references (outside ++ inside) =
      (outside.flatMap references).filter (fun r => r.name ∉ (outside ++ inside).flatMap names) ++
        (dangling names references inside).filter fun r => r.name ∉ outside.flatMap names := by
  simp only [dangling, List.flatMap_append, List.filter_append, List.filter_filter, List.mem_append, not_or,
    Bool.decide_and]

/-- What stands outside makes no difference if and only if it leaves nothing dangling and gives no name that dangles
inside. -/
theorem dangling_append_eq_iff (names : StartTag → List String) (references : StartTag → List Reference)
    (outside inside : List StartTag) :
    dangling names references (outside ++ inside) = dangling names references inside ↔
      (∀ r ∈ outside.flatMap references, r.name ∈ (outside ++ inside).flatMap names) ∧
      ∀ r ∈ dangling names references inside, r.name ∉ outside.flatMap names := by
  have hleft : (outside.flatMap references).filter (fun r => r.name ∉ (outside ++ inside).flatMap names) = [] ↔
      ∀ r ∈ outside.flatMap references, r.name ∈ (outside ++ inside).flatMap names := by
    simp only [List.filter_eq_nil_iff, decide_eq_true_eq, Decidable.not_not]
  have hright : (dangling names references inside).filter (fun r => r.name ∉ outside.flatMap names) =
      dangling names references inside ↔ ∀ r ∈ dangling names references inside, r.name ∉ outside.flatMap names := by
    simp only [List.filter_eq_self, decide_eq_true_eq]
  rw [dangling_append, ← hleft, ← hright]
  constructor
  · intro h
    -- A reference that dangles inside is on the left-hand side, so that nothing outside gives its name.
    have hin : (dangling names references inside).filter (fun r => r.name ∉ outside.flatMap names) =
        dangling names references inside := by
      rw [hright]
      intro r hr
      rw [← h, List.mem_append, List.mem_filter, List.mem_filter, decide_eq_true_eq, decide_eq_true_eq] at hr
      rcases hr with ⟨-, hr⟩ | ⟨-, hr⟩
      · exact fun ho => hr (by rw [List.flatMap_append]; exact List.mem_append_left _ ho)
      · exact hr
    rw [hin, List.append_left_eq_self] at h
    exact ⟨h, hin⟩
  · rintro ⟨hout, hin⟩
    rw [hout, hin, List.nil_append]

/-! ### What start tags give and refer to -/

namespace StartTag

/-- A reference of the tag to a name. -/
def refer (t : StartTag) (name : String) : Reference := ⟨t.locator, name⟩

/-- The IDs of a form control that a label may be for. -/
def controlIds (t : StartTag) : List String :=
  if labelable.contains t.name && !t.isInput "hidden" then t.attributes.ids else []

/-- What a label is for. -/
def labelReferences (t : StartTag) : List Reference :=
  if t.name = "label" then (t.last? "for").toList.map t.refer else []

/-- The IDs of the elements with the given name. -/
def idsOf (element : String) (t : StartTag) : List String :=
  if t.name = element then t.attributes.ids else []

/-- The form that an element names as its own. -/
def formReferences (t : StartTag) : List Reference :=
  if formAssociated.contains t.name then (t.get? "form").toList.map t.refer else []

/-- The list of shards that a hidden input names. -/
def listReferences (t : StartTag) : List Reference :=
  if t.isShard then (t.last? "list").toList.map t.refer else []

/-- The name of an input. -/
def inputNames (t : StartTag) : List String :=
  if t.name = "select" || t.name = "input" then (t.last? "name").toList else []

/-- The variables of the template of a link, as references to the names of inputs. -/
def variableReferences (t : StartTag) : List Reference :=
  t.templateVariables.map t.refer

end StartTag

/-! ### Parts of the state that collect references -/

namespace State

private theorem next_of_startTag? (s : State) {e : Event} {t : StartTag} (h : startTag? e = some t) :
    s.next e = s.start t := by
  cases e with
  | startElement locator uri name attributes =>
    by_cases hu : uri = xhtml
    · simp only [startTag?, hu, ↓reduceIte, Option.some.injEq] at h
      rw [hu, ← h]
      exact next_start s ⟨locator, name, attributes⟩
    · simp [startTag?, hu] at h
  | startDocument | endDocument | reset | endElement | characters | sourceIsCss => simp [startTag?] at h

/-- Content other than a start tag of the vocabulary may change what is known about the open elements. It keeps all
names and references, except that the end of an `extent` drops those that templates are about. -/
private theorem next_of_startTag?_eq_none (s : State) {e : Event} (he : e.isContent) (ht : startTag? e = none) :
    ∃ frames pendingDescendants singleSelects, s.next e = { s with
      frames, pendingDescendants, singleSelects
      inputs := if e.endsExtent && s.depth ≠ 0 then {} else s.inputs } := by
  cases e with
  | startElement locator uri name attributes =>
    have hu : uri ≠ xhtml := by
      intro hu
      simp [startTag?, hu] at ht
    exact ⟨_, _, _, next_startOther s locator name attributes hu⟩
  | endElement locator uri name =>
    rcases hf : s.frames with _ | ⟨f, outer⟩
    · refine ⟨s.frames, s.pendingDescendants, s.singleSelects, ?_⟩
      rw [next_end_nil hf, if_neg (by simp [depth, hf])]
    · refine ⟨framesAfterEnd f uri name outer, s.pendingDescendants.filter (·.1 ≠ outer.length),
        s.singleSelects.filter (· ≠ outer.length), ?_⟩
      rw [next_end_cons hf]
      simp [finish, Event.endsExtent, depth, hf]
  | characters text => exact ⟨_, _, _, rfl⟩
  | startDocument | endDocument | reset | sourceIsCss => simp [Event.isContent] at he

theorem inputs_next_endExtent {s : State} (h : s.depth ≠ 0) (locator : Locator) :
    (s.next (.endElement locator xhtml "extent")).inputs = {} := by
  obtain ⟨_, _, _, hnext⟩ := s.next_of_startTag?_eq_none (e := .endElement locator xhtml "extent") rfl rfl
  rw [hnext]
  simp [Event.endsExtent, h]

/-- Start tags add names and references to a part of the state, and of the events that are `allowed` no other one
changes it. -/
structure Registers (part : State → References) (names : StartTag → List String)
    (references : StartTag → List Reference) (allowed : Event → Prop) : Prop where
  start (s : State) (t : StartTag) : part (s.start t) = ((part s).define (names t)).refer (references t)
  other (s : State) (e : Event) : allowed e → startTag? e = none → part (s.next e) = part s

namespace Registers

variable {part : State → References} {names : StartTag → List String} {references : StartTag → List Reference}
  {allowed : Event → Prop}

private theorem pending_run (h : Registers part names references allowed) (s : State) {events : List Event}
    (ha : ∀ e ∈ events, allowed e) :
    (part (s.run events)).pending = (part s).pending ++ (startTags events).flatMap references := by
  induction events generalizing s with
  | nil => simp
  | cons e events ih =>
    rw [run_cons, ih _ fun e' he' => ha e' (List.mem_cons_of_mem e he')]
    rcases ht : startTag? e with _ | t
    · rw [h.other s e (ha e List.mem_cons_self) ht, startTags_cons_of_none ht]
    · rw [next_of_startTag? s ht, h.start, startTags_cons_of_some ht, List.flatMap_cons, References.pending_refer,
        References.pending_define, List.append_assoc]

private theorem contains_run (h : Registers part names references allowed) (s : State) {events : List Event}
    (ha : ∀ e ∈ events, allowed e) (name : String) :
    (part (s.run events)).targets.contains name =
      ((part s).targets.contains name || ((startTags events).flatMap names).contains name) := by
  induction events generalizing s with
  | nil => simp
  | cons e events ih =>
    rw [run_cons, ih _ fun e' he' => ha e' (List.mem_cons_of_mem e he')]
    rcases ht : startTag? e with _ | t
    · rw [h.other s e (ha e List.mem_cons_self) ht, startTags_cons_of_none ht]
    · rw [next_of_startTag? s ht, h.start, startTags_cons_of_some ht, List.flatMap_cons, References.targets_refer,
        References.contains_define, List.contains_append, Bool.or_assoc]

/-- At the end of a scope the unresolved references are those to names that no start tag of the scope gives, whether
before the reference or after it. -/
theorem unresolved_run (h : Registers part names references allowed) {s : State} (hs : part s = {})
    {events : List Event} (ha : ∀ e ∈ events, allowed e) :
    (part (s.run events)).unresolved = dangling names references (startTags events) := by
  unfold References.unresolved dangling
  rw [h.pending_run s ha, hs, List.nil_append]
  apply List.filter_congr
  intro r _
  rw [h.contains_run s ha, hs, Std.ExtTreeSet.contains_empty, Bool.false_or, List.contains_eq_mem, decide_not]

end Registers

private theorem registers_of_kept {part : State → References} {names : StartTag → List String}
    {references : StartTag → List Reference}
    (hstart : ∀ s t, part (s.start t) = ((part s).define (names t)).refer (references t))
    (hkept : ∀ (s : State) frames inputs pendingDescendants singleSelects,
      part { s with frames, inputs, pendingDescendants, singleSelects } = part s) :
    Registers part names references (Event.isContent ·) := by
  constructor
  · exact hstart
  · intro s e he ht
    obtain ⟨frames, pendingDescendants, singleSelects, h⟩ := s.next_of_startTag?_eq_none he ht
    rw [h]
    exact hkept s frames _ pendingDescendants singleSelects

theorem registers_controls : Registers controls StartTag.controlIds StartTag.labelReferences (Event.isContent ·) :=
  registers_of_kept (fun _ _ => rfl) (fun _ _ _ _ _ => rfl)

theorem registers_forms : Registers forms (StartTag.idsOf "form") StartTag.formReferences (Event.isContent ·) :=
  registers_of_kept (fun _ _ => rfl) (fun _ _ _ _ _ => rfl)

theorem registers_lists : Registers lists (StartTag.idsOf "datalist") StartTag.listReferences (Event.isContent ·) :=
  registers_of_kept (fun _ _ => rfl) (fun _ _ _ _ _ => rfl)

theorem registers_inputs : Registers inputs StartTag.inputNames StartTag.variableReferences
    fun e => e.isContent ∧ ¬e.endsExtent := by
  constructor
  · intro s t
    rfl
  · intro s e he ht
    obtain ⟨_, _, _, h⟩ := s.next_of_startTag?_eq_none he.1 ht
    rw [h, if_neg (by simp [he.2])]

/-- The places of the links by which the document names its own style are kept in order. -/
theorem selfStyles_run (s : State) {events : List Event} (hc : ∀ e ∈ events, e.isContent) :
    (s.run events).selfStyles =
      s.selfStyles ++ ((startTags events).filter (·.isSelfStyle)).map (·.locator) := by
  induction events generalizing s with
  | nil => simp
  | cons e events ih =>
    rw [run_cons, ih _ fun e' he' => hc e' (List.mem_cons_of_mem e he')]
    rcases ht : startTag? e with _ | t
    · obtain ⟨_, _, _, h⟩ := s.next_of_startTag?_eq_none (hc e List.mem_cons_self) ht
      rw [h, startTags_cons_of_none ht]
    · rw [next_of_startTag? s ht, startTags_cons_of_some ht]
      by_cases hself : t.isSelfStyle
      · simp [start, hself]
      · simp [start, hself]

end State

end Rules

end MapMarkup
