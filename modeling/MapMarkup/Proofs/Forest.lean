import MapMarkup.Proofs.Frames
import MapMarkup.Proofs.Registration

/-!
# What stands inside an element

A forest is what may stand between the start and the end of an element: text and elements, each of these with a forest
of its own. The host may ask for something between any two of them, such as a reset, so long as it neither starts nor
ends a document. Up to such requests the events of forests are exactly the properly nested ones
(`Event.nestsTo_nil_iff`), so that whatever is said about all forests is said about every element of every
properly nested run, and the inductions follow the structure of the document.

`Forest.tell` says what an element has been told when its end comes. Over a forest the frames of the elements around
it stay as they are, and the frame of the element itself becomes what it has been told (`State.toldFrames_run`). The
only thing that goes further than to the parent is that an option is selected, so that this is left out here.
-/

namespace MapMarkup

open Rules (StartTag startTag?)
open Vocabulary (xhtml)

inductive Forest where
  | nil
  | characters (text : String) (rest : Forest)
  | reset (rest : Forest)
  | sourceIsCss (value : Bool) (rest : Forest)
  | element (locator locator' : Locator) (uri name : String) (attributes : Attributes) (inside rest : Forest)
deriving Repr

namespace Forest

/-- The events of a forest. -/
def events : Forest → List Event
  | nil => []
  | characters text rest => .characters text :: rest.events
  | reset rest => .reset :: rest.events
  | sourceIsCss value rest => .sourceIsCss value :: rest.events
  | element locator locator' uri name attributes inside rest =>
    .startElement locator uri name attributes :: inside.events ++ .endElement locator' uri name :: rest.events

/-- The elements of the vocabulary that no other element of the forest contains, each with what stands inside it. -/
def children : Forest → List (StartTag × Forest)
  | nil => []
  | characters _ rest | reset rest | sourceIsCss _ rest => rest.children
  | element locator _ uri name attributes inside rest =>
    (if uri = xhtml then [(⟨locator, name, attributes⟩, inside)] else []) ++ rest.children

/-- The start tags of these elements. -/
def tags (content : Forest) : List StartTag :=
  content.children.map (·.1)

theorem tags_element (locator locator' : Locator) (uri name : String) (attributes : Attributes)
    (inside rest : Forest) :
    (element locator locator' uri name attributes inside rest).tags =
      (if uri = xhtml then [⟨locator, name, attributes⟩] else []) ++ rest.tags := by
  rw [tags, children, List.map_append, apply_ite (List.map _)]
  rfl

/-- The text that no element of the forest contains. -/
def ownText : Forest → String
  | nil => ""
  | characters text rest => text ++ rest.ownText
  | reset rest | sourceIsCss _ rest | element _ _ _ _ _ _ rest => rest.ownText

/-- An element of the vocabulary that starts and ends on the given line, in front of others. -/
def onLine (line : Nat) (name : String) (pairs : List (String × String)) (inside rest : Forest) : Forest :=
  element ⟨line, 40, none, none⟩ ⟨line, 50, none, none⟩ xhtml name (.ofPairs pairs) inside rest

end Forest

/-! ### Properly nested events -/

namespace Event

/-- Whether an event is a request of the host that leaves the document as it is. -/
def isRequest : Event → Bool
  | reset | sourceIsCss _ => true
  | startDocument | endDocument | startElement .. | endElement .. | characters _ => false

/-- The events are properly nested if requests are passed over, and lead from the open elements `outer` to `opened`. -/
def NestsTo (outer : List ElementName) (events : List Event) (opened : List ElementName) : Prop :=
  nestAll? outer (events.filter fun e => !e.isRequest) = some opened

private theorem nestsTo_cons_of_request {outer opened : List ElementName} {e : Event} (he : e.isRequest)
    (events : List Event) :
    NestsTo outer (e :: events) opened ↔ NestsTo outer events opened := by
  simp only [NestsTo, List.filter_cons, he, Bool.not_true, Bool.false_eq_true, ↓reduceIte]

theorem nestsTo_cons {outer opened : List ElementName} {e : Event} (he : e.isRequest = false) (events : List Event) :
    NestsTo outer (e :: events) opened ↔ ∃ between, nest? outer e = some between ∧ NestsTo between events opened := by
  simp only [NestsTo, List.filter_cons, he, Bool.not_false, ↓reduceIte, nestAll?_cons, Option.bind_eq_some_iff]

theorem nestsTo_of_nestAll? {outer opened : List ElementName} {events : List Event}
    (h : nestAll? outer events = some opened) : NestsTo outer events opened := by
  induction events generalizing outer with
  | nil => exact h
  | cons e events ih =>
    obtain ⟨between, he, hrest⟩ := nestAll?_eq_of_cons h
    have hrequest : e.isRequest = false := by
      cases e with
      | reset | sourceIsCss => simp [nest?] at he
      | startDocument | endDocument | startElement | endElement | characters => rfl
    exact (nestsTo_cons hrequest events).2 ⟨between, he, ih hrest⟩

theorem NestsTo.append {outer between opened : List ElementName} {es fs : List Event} (he : NestsTo outer es between)
    (hf : NestsTo between fs opened) : NestsTo outer (es ++ fs) opened := by
  rw [NestsTo] at he
  rw [NestsTo, List.filter_append, nestAll?_append, he, Option.bind_some]
  exact hf

theorem NestsTo.of_append {outer opened : List ElementName} {es fs : List Event} (h : NestsTo outer (es ++ fs) opened) :
    ∃ between, NestsTo outer es between ∧ NestsTo between fs opened := by
  rw [NestsTo, List.filter_append] at h
  exact nestAll?_eq_of_append h

/-- Properly nested events leave open what is tracked along them. -/
theorem NestsTo.trackAll_eq {outer opened : List ElementName} {events : List Event} (h : NestsTo outer events opened) :
    trackAll outer events = opened := by
  induction events generalizing outer with
  | nil => exact Option.some.inj h
  | cons e events ih =>
    cases hrequest : e.isRequest with
    | true =>
      have htrack : track outer e = outer := by
        cases e with
        | reset | sourceIsCss => rfl
        | startDocument | endDocument | startElement | endElement | characters => simp [isRequest] at hrequest
      show trackAll (track outer e) events = opened
      rw [htrack]
      exact ih ((nestsTo_cons_of_request hrequest events).1 h)
    | false =>
      obtain ⟨between, he, hrest⟩ := (nestsTo_cons hrequest events).1 h
      show trackAll (track outer e) events = opened
      rw [track_of_nest? he]
      exact ih hrest

theorem NestsTo.append_outer {opened opened' : List ElementName} {events : List Event}
    (h : NestsTo opened events opened') (outer : List ElementName) :
    NestsTo (opened ++ outer) events (opened' ++ outer) :=
  nestAll?_append_outer h outer

end Event

namespace Forest

open Event (NestsTo nestsTo_cons nestsTo_cons_of_request)

theorem nestsTo_events (content : Forest) : NestsTo [] content.events [] := by
  induction content with
  | nil => rfl
  | characters text rest ih => exact (nestsTo_cons rfl _).2 ⟨[], rfl, ih⟩
  | reset rest ih => exact (nestsTo_cons_of_request rfl _).2 ih
  | sourceIsCss value rest ih => exact (nestsTo_cons_of_request rfl _).2 ih
  | element locator locator' uri name attributes inside rest ihInside ihRest =>
    have hend : NestsTo [(uri, name)] (.endElement locator' uri name :: rest.events) [] :=
      (nestsTo_cons rfl _).2 ⟨[], if_pos rfl, ihRest⟩
    exact (nestsTo_cons rfl _).2 ⟨[(uri, name)], rfl, (ihInside.append_outer [(uri, name)]).append hend⟩

/-- The events end the open elements one after the other, with a forest in front of each end and behind the last one. -/
def Closes : List ElementName → List Event → Prop
  | [], events => ∃ content : Forest, content.events = events
  | (uri, name) :: outer, events =>
    ∃ (content : Forest) (locator : Locator) (rest : List Event),
      events = content.events ++ .endElement locator uri name :: rest ∧ Closes outer rest

/-- What may stand in front of a forest may stand in front of the first one of several. -/
private theorem Closes.extend {opened : List ElementName} {events : List Event} (before : List Event)
    (hadd : ∀ content : Forest, ∃ content' : Forest, content'.events = before ++ content.events)
    (h : Closes opened events) : Closes opened (before ++ events) := by
  rcases opened with _ | ⟨⟨uri, name⟩, outer⟩
  · obtain ⟨content, rfl⟩ := h
    exact hadd content
  · obtain ⟨content, locator, rest, rfl, hrest⟩ := h
    obtain ⟨content', hcontent'⟩ := hadd content
    exact ⟨content', locator, rest, by rw [hcontent', List.append_assoc], hrest⟩

private theorem closes_of_nestsTo {opened : List ElementName} {events : List Event} (h : NestsTo opened events []) :
    Closes opened events := by
  induction events generalizing opened with
  | nil =>
    obtain rfl : opened = [] := Option.some.inj h
    exact ⟨nil, rfl⟩
  | cons e events ih =>
    cases e with
    | startDocument | endDocument => exact absurd ((nestsTo_cons rfl _).1 h) (by simp [Event.nest?])
    | reset =>
      exact (ih ((nestsTo_cons_of_request rfl _).1 h)).extend [.reset] fun content => ⟨reset content, rfl⟩
    | sourceIsCss value =>
      exact (ih ((nestsTo_cons_of_request rfl _).1 h)).extend [.sourceIsCss value]
        fun content => ⟨sourceIsCss value content, rfl⟩
    | characters text =>
      obtain ⟨between, he, hrest⟩ := (nestsTo_cons rfl _).1 h
      obtain rfl := Option.some.inj he
      exact (ih hrest).extend [.characters text] fun content => ⟨characters text content, rfl⟩
    | endElement locator uri name =>
      obtain ⟨between, he, hrest⟩ := (nestsTo_cons rfl _).1 h
      obtain rfl := Event.eq_cons_of_nest?_endElement he
      exact ⟨nil, locator, events, rfl, ih hrest⟩
    | startElement locator uri name attributes =>
      obtain ⟨between, he, hrest⟩ := (nestsTo_cons rfl _).1 h
      obtain rfl := Option.some.inj he
      -- The forest in front of the element's end is what stands inside it.
      obtain ⟨inside, locator', rest, rfl, hclose⟩ := ih hrest
      have hadd := hclose.extend
        (.startElement locator uri name attributes :: inside.events ++ [.endElement locator' uri name])
        fun content => ⟨element locator locator' uri name attributes inside content, by simp [Forest.events]⟩
      simpa using hadd

end Forest

/-- Properly nested events that leave nothing open are those of a forest. -/
theorem Event.nestsTo_nil_iff {events : List Event} :
    NestsTo [] events [] ↔ ∃ content : Forest, content.events = events := by
  constructor
  · exact fun h => Forest.closes_of_nestsTo h
  · rintro ⟨content, rfl⟩
    exact content.nestsTo_events

theorem Forest.trackAll_events (content : Forest) (opened : List ElementName) :
    Event.trackAll opened content.events = opened := by
  induction content generalizing opened with
  | nil => rfl
  | characters text rest ih => exact ih opened
  | reset rest ih => exact ih opened
  | sourceIsCss value rest ih => exact ih opened
  | element locator locator' uri name attributes inside rest ihInside ihRest =>
    have hinside : (inside.events.foldl Event.track ((uri, name) :: opened)) = _ := ihInside ((uri, name) :: opened)
    rw [events, Event.trackAll, List.cons_append, List.foldl_cons, List.foldl_append, Event.track, hinside]
    exact ihRest opened

namespace Rules

/-! ### What an element is told -/

namespace Frame

/-- The frame without the note that an option is selected, which need not come from a child. -/
def told (f : Frame) : Frame :=
  { f with options := { f.options with selectedFound := false } }

private theorem told_collect (f : Frame) (text : String) : (f.collect text).told = f.told.collect text := by
  unfold collect
  split
  · rename_i h
    exact (if_pos h).symm
  · rename_i h
    exact (if_neg h).symm

private theorem told_noteOption (t : StartTag) (f : Frame) : (noteOption t f).told = noteOption t f.told := by
  have hawaits : f.told.awaitsOption = f.awaitsOption := rfl
  unfold noteOption
  rw [hawaits]
  split
  · cases t.get? "value" with
    | none => rfl
    | some value =>
      by_cases hv : value = ""
      · simp only [hv, ↓reduceIte]
      · simp only [hv, ↓reduceIte]
        rfl
  · rfl

private theorem told_noteChild (t : StartTag) (f : Frame) : (State.noteChild t f).told = State.noteChild t f.told := by
  simp only [State.noteChild, ← told_noteOption]
  rfl

private theorem told_noteOptionEnd (f parent : Frame) :
    (noteOptionEnd f parent).told = noteOptionEnd f.told parent.told := by
  have hfound : parent.told.options.found = parent.options.found := rfl
  unfold noteOptionEnd
  rw [hfound]
  split
  · rfl
  · -- The child's frame is asked for its text only, the parent's for what it has heard of options.
    have hdecides : (f.told.collecting && parent.told.options.valuelessFound && Text.trim f.told.text ≠ "") =
        (f.collecting && parent.options.valuelessFound && Text.trim f.text ≠ "") := rfl
    dsimp only at hdecides ⊢
    rw [hdecides]
    split
    · rfl
    · rfl

/-- The frame of a child that starts with the tag. -/
def child (f : Frame) (t : StartTag) : Frame :=
  State.frameOf { frames := [f] } t

private theorem told_child (f : Frame) (t : StartTag) : (f.child t).told = f.child t := rfl

private theorem child_told (f : Frame) (t : StartTag) : f.told.child t = f.child t := rfl

/-- What a child tells the element, if it starts with the tag and has the frame `own` when it ends. -/
def hear (f : Frame) (t : StartTag) (own : Frame) : Frame :=
  if t.name = "option" then noteOptionEnd own (State.noteChild t f) else State.noteChild t f

end Frame

end Rules

/-- The frame of an element after the forest inside it. -/
def Forest.tell : Forest → Rules.Frame → Rules.Frame
  | nil, f => f
  | characters text rest, f => rest.tell (f.collect text)
  | reset rest, f => rest.tell f
  | sourceIsCss _ rest, f => rest.tell f
  | element locator _ uri name attributes inside rest, f =>
    if uri = xhtml then
      rest.tell (f.hear ⟨locator, name, attributes⟩ (inside.tell (f.child ⟨locator, name, attributes⟩)))
    else rest.tell f

namespace Rules.Frame

theorem bare_hear (f : Frame) (t : StartTag) (own : Frame) : (f.hear t own).bare = f.bare := by
  unfold hear
  split
  · rw [bare_noteOptionEnd, bare_noteChild]
  · rw [bare_noteChild]

private theorem text_hear (f : Frame) (t : StartTag) (own : Frame) : (f.hear t own).text = f.text := by
  have hnote : (State.noteChild t f).text = f.text := by
    show (noteOption t f).text = f.text
    unfold noteOption
    grind
  unfold hear
  split
  · rw [← hnote]
    unfold noteOptionEnd
    grind
  · exact hnote

private theorem text_collect (f : Frame) (text : String) :
    (f.collect text).text = if f.collecting then f.text ++ text else f.text := by
  unfold collect
  split
  · rfl
  · rfl

private theorem collecting_collect (f : Frame) (text : String) : (f.collect text).collecting = f.collecting :=
  congrArg (·.collecting) (f.bare_collect text)

private theorem collecting_hear (f : Frame) (t : StartTag) (own : Frame) : (f.hear t own).collecting = f.collecting :=
  congrArg (·.collecting) (f.bare_hear t own)

end Rules.Frame

namespace Forest

/-- What the start tag has settled about an element stays as it is. -/
theorem bare_tell (content : Forest) (f : Rules.Frame) : (content.tell f).bare = f.bare := by
  induction content generalizing f with
  | nil => rfl
  | characters text rest ih => rw [tell, ih, f.bare_collect]
  | reset rest ih => exact ih f
  | sourceIsCss value rest ih => exact ih f
  | element locator locator' uri name attributes inside rest ihInside ihRest =>
    rw [tell]
    split
    · rw [ihRest, f.bare_hear]
    · exact ihRest f

/-- An element that collects character data collects its own text. -/
theorem text_tell (content : Forest) (f : Rules.Frame) :
    (content.tell f).text = if f.collecting then f.text ++ content.ownText else f.text := by
  induction content generalizing f with
  | nil => simp only [tell, ownText, String.append_empty, ite_self]
  | characters text rest ih =>
    rw [tell, ih, f.collecting_collect, f.text_collect, ownText]
    split
    · rw [String.append_assoc]
    · rfl
  | reset rest ih => exact ih f
  | sourceIsCss value rest ih => exact ih f
  | element locator locator' uri name attributes inside rest ihInside ihRest =>
    rw [tell, ownText]
    split
    · rw [ihRest, f.collecting_hear, f.text_hear]
    · exact ihRest f

end Forest

namespace Rules.State

private theorem toldFrames_start {s : State} {f : Frame} {around : List Frame}
    (hs : s.frames.map Frame.told = f :: around)
    (t : StartTag) : (s.start t).frames.map Frame.told = f.child t :: noteChild t f :: around := by
  obtain ⟨g, outer, hframes, rfl, rfl⟩ := List.map_eq_cons_iff.1 hs
  have hchild : s.frameOf t = g.child t := by
    simp only [Frame.child, frameOf, ancestors, decidesByText, parent?, hframes, List.head?_cons]
  show (s.framesAfter t).map Frame.told = _
  rw [map_framesAfter (fun _ => rfl) (noteChild t) (Frame.told_noteChild t), hs, List.modifyHead_cons, hchild,
    Frame.told_child, Frame.child_told]

private theorem toldFrames_finish (s : State) (f : Frame) (outer : List Frame) (uri name : String) :
    (s.finish f outer uri name).frames.map Frame.told =
      framesAfterEnd f.told uri name (outer.map Frame.told) := by
  show (framesAfterEnd f uri name outer).map Frame.told = _
  unfold framesAfterEnd
  split
  · exact map_modifyHead (noteOptionEnd f.told) (Frame.told_noteOptionEnd f) outer
  · rfl

private theorem toldFrames_characters {s : State} {f : Frame} {around : List Frame}
    (hs : s.frames.map Frame.told = f :: around) (text : String) :
    (s.next (.characters text)).frames.map Frame.told = f.collect text :: around := by
  have hcollect : (s.frames.modifyHead fun f => f.collect text).map Frame.told = _ :=
    map_modifyHead (Frame.collect · text) (fun f => f.told_collect text) s.frames
  rw [hs, List.modifyHead_cons] at hcollect
  exact hcollect

/-- After a forest the frame of the element around it is what it has been told, and all frames further out are as they
were, except for the note that an option is selected. -/
theorem toldFrames_run (content : Forest) {s : State} {f : Frame} {around : List Frame}
    (hs : s.frames.map Frame.told = f :: around) :
    (s.run content.events).frames.map Frame.told = content.tell f :: around := by
  induction content generalizing s f around with
  | nil => exact hs
  | characters text rest ih => exact ih (toldFrames_characters hs text)
  | reset rest ih => exact ih hs
  | sourceIsCss value rest ih => exact ih hs
  | element locator locator' uri name attributes inside rest ihInside ihRest =>
    rw [Forest.events, List.cons_append, run_cons, run_append, run_cons, Forest.tell]
    split
    · rename_i hu
      subst hu
      obtain ⟨g, outer, hframes, hg, houter⟩ :=
        List.map_eq_cons_iff.1 (ihInside (toldFrames_start hs ⟨locator, name, attributes⟩))
      refine ihRest ?_
      rw [next_start s ⟨locator, name, attributes⟩, next_end_cons hframes, toldFrames_finish, hg, houter,
        framesAfterEnd, Frame.hear]
      by_cases hn : name = "option"
      · simp only [hn, decide_true, Bool.and_self, ↓reduceIte, List.modifyHead_cons]
      · simp only [hn, decide_false, Bool.and_false, Bool.false_eq_true, ↓reduceIte]
    · rename_i hu
      have hstart : (s.startOther locator).frames.map Frame.told = _ :: f :: around := congrArg (_ :: ·) hs
      obtain ⟨g, outer, hframes, -, houter⟩ := List.map_eq_cons_iff.1 (ihInside hstart)
      refine ihRest ?_
      rw [next_startOther s locator name attributes hu, next_end_cons hframes, toldFrames_finish, houter,
        framesAfterEnd]
      simp only [hu, decide_false, Bool.false_and, Bool.false_eq_true, ↓reduceIte]

/-- When everything inside an element has ended, its frame is on top again. -/
theorem exists_frame_run (s : State) (t : StartTag) (content : Forest) :
    ∃ f outer, ((s.start t).run content.events).frames = f :: outer ∧ outer.length = s.depth ∧
      f.told = content.tell (s.frameOf t) := by
  have hstart : (s.start t).frames.map Frame.told = s.frameOf t :: _ := rfl
  obtain ⟨f, outer, hframes, hf, houter⟩ := List.map_eq_cons_iff.1 (toldFrames_run content hstart)
  refine ⟨f, outer, hframes, ?_, hf⟩
  have hlength := congrArg List.length houter
  have hdepth := s.depth_start t
  have hframes' : (s.start t).depth = (s.framesAfter t).length := rfl
  rw [hframes', framesAfter, List.length_cons] at hdepth
  simp only [List.length_map] at hlength
  omega

end Rules.State

end MapMarkup
