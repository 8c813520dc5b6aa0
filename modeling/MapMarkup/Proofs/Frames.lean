import MapMarkup.Proofs.Nesting

/-!
# What events do to the frames of open elements

Elements tell their parent, and the `select` around them, what is to be known at the ends of those. All of this goes
into the notes of a frame; what the start tag has settled about the element, its `bare` frame, stays as it is while the
element is open. So the bare frames are a stack (`State.bareFrames_next`): a start puts one on it, an end takes one off
whatever its name is, and the start and the end of a document empty it.

`Event.track` says the same of the names of elements. Along any events the frames are those of the elements that are
tracked (`State.names_run`).
-/

namespace MapMarkup

namespace Event

/-- The open elements after an event, innermost first, if an end is taken to be that of the innermost one. -/
def track (opened : List ElementName) : Event → List ElementName
  | startDocument | endDocument => []
  | startElement _ uri name _ => (uri, name) :: opened
  | endElement .. => opened.tail
  | reset | characters _ | sourceIsCss _ => opened

/-- The open elements after several events. -/
def trackAll (opened : List ElementName) (events : List Event) : List ElementName :=
  events.foldl track opened

theorem track_of_nest? {opened opened' : List ElementName} {e : Event} (h : nest? opened e = some opened') :
    track opened e = opened' := by
  cases e with
  | startElement | characters => exact Option.some.inj h
  | endElement locator uri name =>
    rw [eq_cons_of_nest?_endElement h]
    rfl
  | startDocument | endDocument | reset | sourceIsCss => simp [nest?] at h

end Event

namespace Rules

open Vocabulary

/-- The name that the rules know an element by; it has none outside the vocabulary's namespace. -/
def knownName (e : ElementName) : Option String :=
  if e.1 = xhtml then some e.2 else none

theorem knownName_eq_some_iff {e : ElementName} {name : String} : knownName e = some name ↔ e = (xhtml, name) := by
  obtain ⟨uri, name'⟩ := e
  by_cases hu : uri = xhtml
  · simp [knownName, hu]
  · simp [knownName, hu]

namespace Frame

/-- The frame without what others have told the element and without character data. -/
def bare (f : Frame) : Frame :=
  { f with text := "", options := {}, extent := {} }

/-- The frame without character data and without what the element knows about its options. -/
def shell (f : Frame) : Frame :=
  { f with text := "", options := {} }

theorem eq_of_shell {α : Type} {view : Frame → α} (h : ∀ f, view f.shell = view f) {f g : Frame}
    (hshell : f.shell = g.shell) : view f = view g := by
  rw [← h f, hshell, h]

private theorem bare_shell (f : Frame) : f.shell.bare = f.bare := rfl

theorem shell_collect (f : Frame) (text : String) : (f.collect text).shell = f.shell := by
  unfold collect
  split
  · rfl
  · rfl

theorem shell_noteOption (t : StartTag) (f : Frame) : (noteOption t f).shell = f.shell := by
  unfold noteOption
  split
  · split
    · rfl
    · split
      · rfl
      · rfl
  · rfl

theorem shell_noteOptionEnd (f parent : Frame) : (noteOptionEnd f parent).shell = parent.shell := by
  unfold noteOptionEnd
  split
  · rfl
  · dsimp only
    split
    · rfl
    · rfl

theorem bare_collect (f : Frame) (text : String) : (f.collect text).bare = f.bare :=
  eq_of_shell bare_shell (f.shell_collect text)

theorem bare_noteChild (t : StartTag) (f : Frame) : (State.noteChild t f).bare = f.bare := by
  have hoption : (noteOption t f).bare = f.bare := eq_of_shell bare_shell (shell_noteOption t f)
  exact hoption

theorem bare_noteOptionEnd (f parent : Frame) : (noteOptionEnd f parent).bare = parent.bare :=
  eq_of_shell bare_shell (shell_noteOptionEnd f parent)

end Frame

section

variable {α : Type} {view : Frame → α}

/-- Changing the innermost frame changes the innermost one of what is seen of the frames. -/
theorem map_modifyHead {change : Frame → Frame} (change' : α → α) (h : ∀ f, view (change f) = change' (view f))
    (frames : List Frame) : (frames.modifyHead change).map view = (frames.map view).modifyHead change' := by
  cases frames with
  | nil => rfl
  | cons f outer => rw [List.modifyHead_cons, List.map_cons, List.map_cons, List.modifyHead_cons, h]

theorem map_modifyHead_of_eq {change : Frame → Frame} (h : ∀ f, view (change f) = view f) (frames : List Frame) :
    (frames.modifyHead change).map view = frames.map view := by
  rw [map_modifyHead id h, List.modifyHead_id, id_eq]

/-- That an option is selected is noted in one place of a frame only. -/
private theorem map_noteSelected (h : ∀ f : Frame, view { f with options.selectedFound := true } = view f)
    (frames : List Frame) : (noteSelected frames).map view = frames.map view := by
  induction frames with
  | nil => rfl
  | cons f outer ih =>
    unfold noteSelected
    split
    · exact congrArg (· :: outer.map view) (h f)
    · rw [List.map_cons, ih, List.map_cons]

/-- What is seen of the frames after a start tag, if it is not seen that an option is selected. -/
theorem State.map_framesAfter (hselected : ∀ f : Frame, view { f with options.selectedFound := true } = view f)
    {t : StartTag} (heard : α → α) (hchild : ∀ f, view (State.noteChild t f) = heard (view f)) (s : State) :
    (s.framesAfter t).map view = view (s.frameOf t) :: (s.frames.map view).modifyHead heard := by
  rw [framesAfter, List.map_cons, map_modifyHead heard hchild]
  split
  · rw [map_noteSelected hselected]
  · rfl

/-- What is seen of the frames after an end, if it is not seen what an option says at its end. -/
theorem State.map_framesAfterEnd (hend : ∀ f parent, view (noteOptionEnd f parent) = view parent) (f : Frame)
    (uri name : String) (outer : List Frame) : (framesAfterEnd f uri name outer).map view = outer.map view := by
  unfold framesAfterEnd
  split
  · exact map_modifyHead_of_eq (hend f) outer
  · rfl

end

namespace State

/-- The bare frame of an element that starts now. -/
def bareFrameOf (s : State) (locator : Locator) (uri name : String) (attributes : Attributes) : Frame :=
  if uri = xhtml then (s.frameOf ⟨locator, name, attributes⟩).bare
  else { ancestors := s.ancestors, name := none, locator }

private theorem name_bareFrameOf (s : State) (locator : Locator) (uri name : String) (attributes : Attributes) :
    (s.bareFrameOf locator uri name attributes).name = knownName (uri, name) := by
  unfold bareFrameOf knownName
  split
  · rfl
  · rfl

theorem ancestors_bareFrameOf (s : State) (locator : Locator) (uri name : String) (attributes : Attributes) :
    (s.bareFrameOf locator uri name attributes).ancestors = s.ancestors := by
  unfold bareFrameOf
  split
  · rfl
  · rfl

/-- The bare frames after an event. -/
def bareFramesAfter (s : State) : Event → List Frame
  | .startDocument | .endDocument => []
  | .startElement locator uri name attributes =>
    s.bareFrameOf locator uri name attributes :: s.frames.map Frame.bare
  | .endElement .. => (s.frames.map Frame.bare).tail
  | .reset | .characters _ | .sourceIsCss _ => s.frames.map Frame.bare

private theorem bareFrames_start (s : State) (t : StartTag) :
    (s.start t).frames.map Frame.bare = (s.frameOf t).bare :: s.frames.map Frame.bare := by
  show (s.framesAfter t).map Frame.bare = _
  rw [map_framesAfter (fun _ => rfl) id (Frame.bare_noteChild t), List.modifyHead_id, id_eq]

private theorem bareFrames_finish (s : State) (f : Frame) (outer : List Frame) (uri name : String) :
    (s.finish f outer uri name).frames.map Frame.bare = outer.map Frame.bare :=
  map_framesAfterEnd Frame.bare_noteOptionEnd f uri name outer

theorem bareFrames_next (s : State) (e : Event) : (s.next e).frames.map Frame.bare = s.bareFramesAfter e := by
  cases e with
  | startDocument | endDocument | reset | sourceIsCss => rfl
  | characters text => exact map_modifyHead_of_eq (fun f => f.bare_collect text) s.frames
  | startElement locator uri name attributes =>
    by_cases hu : uri = xhtml
    · subst hu
      rw [next_start s ⟨locator, name, attributes⟩, bareFrames_start]
      simp only [bareFramesAfter, bareFrameOf, ↓reduceIte]
    · rw [next_startOther s locator name attributes hu]
      simp only [bareFramesAfter, bareFrameOf, hu, ↓reduceIte]
      rfl
  | endElement locator uri name =>
    rcases hf : s.frames with _ | ⟨f, outer⟩
    · rw [next_end_nil hf]
      simp only [bareFramesAfter, hf, List.map_nil, List.tail_nil]
    · rw [next_end_cons hf, bareFrames_finish]
      simp only [bareFramesAfter, hf, List.map_cons, List.tail_cons]

/-! ### Names -/

private theorem map_name_bare (frames : List Frame) : (frames.map Frame.bare).map (·.name) = frames.map (·.name) := by
  rw [List.map_map]
  rfl

theorem names_next {s : State} {opened : List ElementName} (hs : s.frames.map (·.name) = opened.map knownName)
    (e : Event) : (s.next e).frames.map (·.name) = (Event.track opened e).map knownName := by
  -- Bare frames have the names of the frames, and which bare frames there are after an event is known.
  rw [← map_name_bare, bareFrames_next]
  cases e with
  | startDocument | endDocument => rfl
  | reset | characters | sourceIsCss => rw [bareFramesAfter, map_name_bare, hs, Event.track]
  | startElement locator uri name attributes =>
    rw [bareFramesAfter, List.map_cons, name_bareFrameOf, map_name_bare, hs, Event.track, List.map_cons]
  | endElement locator uri name => rw [bareFramesAfter, List.map_tail, map_name_bare, hs, Event.track, List.map_tail]

/-- The frames are those of the open elements, whatever the events are. -/
theorem names_run {s : State} {opened : List ElementName} (hs : s.frames.map (·.name) = opened.map knownName)
    (events : List Event) : (s.run events).frames.map (·.name) = (Event.trackAll opened events).map knownName := by
  induction events generalizing s opened with
  | nil => exact hs
  | cons e events ih => exact ih (names_next hs e)

end State

end Rules

end MapMarkup
