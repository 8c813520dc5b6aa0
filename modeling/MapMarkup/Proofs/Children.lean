import MapMarkup.Proofs.Forest

/-!
# What children tell their parent

Each start tag of the vocabulary tells the innermost open element about inputs and links. So an element hears of its
children, and neither of their descendants nor of elements outside the vocabulary. Of each frame only the name and the
notes about inputs and links matter here, its `kept` part. Over a forest these notes come from the start tags of the
children alone (`Frame.kept_tell`); of properly nested content these are its `childTags`
(`State.exists_frame_of_content`).
-/

namespace MapMarkup

namespace Rules

open Event (nest? nestAll? track trackAll)
open Vocabulary

/-! ### Children -/

/-- The start tags of the vocabulary among the events, as far as they come where no element is open; `opened` are those
that are open in front of the events. -/
def childTagsIn (opened : List ElementName) : List Event → List StartTag
  | [] => []
  | e :: events => (if opened = [] then (startTag? e).toList else []) ++ childTagsIn (track opened e) events

/-- The start tags of the children that an element has in the vocabulary, if this is its content. -/
def childTags (content : List Event) : List StartTag :=
  childTagsIn [] content

private theorem childTagsIn_append (opened : List ElementName) (es fs : List Event) :
    childTagsIn opened (es ++ fs) = childTagsIn opened es ++ childTagsIn (trackAll opened es) fs := by
  induction es generalizing opened with
  | nil => rfl
  | cons e es ih => rw [List.cons_append, childTagsIn, ih, childTagsIn, List.append_assoc]; rfl

private theorem childTagsIn_events_of_ne_nil {opened : List ElementName} (h : opened ≠ []) (content : Forest) :
    childTagsIn opened content.events = [] := by
  induction content generalizing opened with
  | nil => rfl
  | characters text rest ih | reset rest ih | sourceIsCss value rest ih =>
    rw [Forest.events, childTagsIn, if_neg h, List.nil_append]
    exact ih h
  | element locator locator' uri name attributes inside rest ihInside ihRest =>
    rw [Forest.events, List.cons_append, childTagsIn, if_neg h, childTagsIn_append, childTagsIn,
      inside.trackAll_events, ihInside (by simp [track])]
    simpa [track] using ihRest h

theorem childTags_concat {content : List Event} {opened : List ElementName} (h : Event.NestsTo [] content opened)
    (e : Event) :
    childTags (content ++ [e]) = childTags content ++ if opened = [] then (startTag? e).toList else [] := by
  rw [childTags, childTagsIn_append, h.trackAll_eq, childTagsIn, childTagsIn, List.append_nil]
  rfl

/-- The children that stand in the events of a forest are those of the forest. -/
private theorem childTags_events (content : Forest) : childTags content.events = content.tags := by
  unfold childTags
  induction content with
  | nil => rfl
  | characters text rest ih | reset rest ih | sourceIsCss value rest ih => exact ih
  | element locator locator' uri name attributes inside rest ihInside ihRest =>
    have hinside : childTagsIn (track [] (.startElement locator uri name attributes)) inside.events = [] :=
      childTagsIn_events_of_ne_nil (List.cons_ne_nil _ _) inside
    rw [Forest.events, List.cons_append, childTagsIn, childTagsIn_append, childTagsIn, inside.trackAll_events, hinside,
      Forest.tags_element, ← ihRest]
    simp only [track, startTag?, apply_ite Option.toList]
    rfl

/-! ### Notes about inputs and links -/

/-- The notes after a child's start tag, if the parent is an `extent` or not. -/
def ExtentNotes.note (e : ExtentNotes) (inExtent : Bool) (t : StartTag) : ExtentNotes where
  hasAction := e.hasAction
  zoomFound := e.zoomFound || t.isInput "zoom"
  queryFound := e.queryFound || (inExtent && t.isQueryLink)
  templateFound := e.templateFound || (inExtent && t.isTemplateLink)
  axes := e.axes ++ t.locationAxis?.toList

/-- The name of an element and what it knows about its inputs and links. -/
abbrev Kept : Type := Option String × ExtentNotes

namespace Kept

/-- What is kept after a child's start tag. -/
def note (k : Kept) (t : StartTag) : Kept :=
  (k.1, k.2.note (k.1 = some "extent") t)

theorem foldl_note (name : Option String) (e : ExtentNotes) (tags : List StartTag) :
    tags.foldl note (name, e) = (name, {
      hasAction := e.hasAction
      zoomFound := e.zoomFound || tags.any (·.isInput "zoom")
      queryFound := e.queryFound || (name = some "extent" && tags.any (·.isQueryLink))
      templateFound := e.templateFound || (name = some "extent" && tags.any (·.isTemplateLink))
      axes := e.axes ++ tags.filterMap (·.locationAxis?) }) := by
  induction tags generalizing e with
  | nil => simp
  | cons t tags ih =>
    have haxes : (t :: tags).filterMap (·.locationAxis?) = t.locationAxis?.toList ++ tags.filterMap (·.locationAxis?) := by
      rw [List.filterMap_cons]
      cases t.locationAxis? <;> rfl
    rw [List.foldl_cons, note, ih]
    simp only [ExtentNotes.note, haxes, List.any_cons, List.append_assoc, Bool.or_assoc, Bool.and_or_distrib_left]

end Kept

namespace Frame

/-- The part of a frame that the notes about inputs and links depend on. -/
def kept (f : Frame) : Kept :=
  (f.name, f.extent)

private theorem kept_shell (f : Frame) : f.shell.kept = f.kept := rfl

theorem kept_collect (f : Frame) (text : String) : (f.collect text).kept = f.kept :=
  eq_of_shell kept_shell (f.shell_collect text)

theorem kept_noteChild (t : StartTag) (f : Frame) : (State.noteChild t f).kept = f.kept.note t := by
  have hoption : (noteOption t f).kept = f.kept := eq_of_shell kept_shell (shell_noteOption t f)
  exact congrArg (Kept.note · t) hoption

theorem kept_noteOptionEnd (f parent : Frame) : (noteOptionEnd f parent).kept = parent.kept :=
  eq_of_shell kept_shell (shell_noteOptionEnd f parent)

private theorem kept_hear (f : Frame) (t : StartTag) (own : Frame) : (f.hear t own).kept = f.kept.note t := by
  unfold hear
  split
  · rw [kept_noteOptionEnd, kept_noteChild]
  · rw [kept_noteChild]

/-- Over a forest an element hears about inputs and links from its children, and from nobody else. -/
theorem kept_tell (f : Frame) (content : Forest) :
    (content.tell f).kept = content.tags.foldl Kept.note f.kept := by
  induction content generalizing f with
  | nil => rfl
  | characters text rest ih => exact (ih (f.collect text)).trans (by rw [kept_collect]; rfl)
  | reset rest ih | sourceIsCss value rest ih => exact ih f
  | element locator locator' uri name attributes inside rest ihInside ihRest =>
    by_cases hu : uri = xhtml
    · rw [Forest.tell, if_pos hu, ihRest, kept_hear, Forest.tags_element, if_pos hu]
      rfl
    · rw [Forest.tell, if_neg hu, ihRest, Forest.tags_element, if_neg hu]
      rfl

end Frame

namespace State

/-- What the element of a start tag knows about its inputs and links when it starts. -/
theorem kept_frameOf (s : State) (t : StartTag) :
    (s.frameOf t).kept = (some t.name, { hasAction := t.name = "extent" && (t.last? "action").isSome }) := rfl

/-- Behind the content of an element its frame is on top again, and its notes about inputs and links are those of its
children. -/
theorem exists_frame_of_nestsTo (s : State) (t : StartTag) {content : List Event}
    (h : Event.NestsTo [] content []) :
    ∃ f outer, ((s.start t).run content).frames = f :: outer ∧ outer.length = s.depth ∧
      f.kept = (childTags content).foldl Kept.note (s.frameOf t).kept := by
  obtain ⟨forest, rfl⟩ := Event.nestsTo_nil_iff.1 h
  obtain ⟨f, outer, hframes, houter, hf⟩ := s.exists_frame_run t forest
  refine ⟨f, outer, hframes, houter, ?_⟩
  have hkept : f.kept = f.told.kept := rfl
  rw [hkept, hf, Frame.kept_tell, childTags_events]

theorem exists_frame_of_content (s : State) (t : StartTag) {content : List Event}
    (h : nestAll? [] content = some []) :
    ∃ f outer, ((s.start t).run content).frames = f :: outer ∧ outer.length = s.depth ∧
      f.kept = (childTags content).foldl Kept.note (s.frameOf t).kept :=
  s.exists_frame_of_nestsTo t (Event.nestsTo_of_nestAll? h)

end State

end Rules

end MapMarkup
