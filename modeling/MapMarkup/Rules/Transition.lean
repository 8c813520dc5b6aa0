import MapMarkup.Rules.Extent
import MapMarkup.Rules.Link
import MapMarkup.Rules.Select

/-!
# How the state follows the events

The rules are a machine with two functions of the state and the event: `State.next` gives the state after the event, and
`State.notices` what the event makes the rules say. Rules on a start tag are decided at once; rules on the children of
an element are decided at its end tag; references are decided where their scope ends, which is the `extent` for the
variables of templates and the document for all others.
-/

namespace MapMarkup.Rules

open Vocabulary

namespace State

/-! ### Start tags -/

/-- What a child tells its parent at its start. -/
def noteChild (t : StartTag) (parent : Frame) : Frame :=
  let parent := noteOption t parent
  let e := parent.extent
  { parent with
    extent := { e with
      zoomFound := e.zoomFound || t.isInput "zoom"
      axes := e.axes ++ t.locationAxis?.toList
      queryFound := e.queryFound || (parent.isNamed "extent" && t.isQueryLink)
      templateFound := e.templateFound || (parent.isNamed "extent" && t.isTemplateLink) } }

/-- The frame of an element that starts with the tag. -/
def frameOf (s : State) (t : StartTag) : Frame where
  ancestors := s.ancestors
  name := some t.name
  locator := t.locator
  activeDescendant := t.last? "aria-activedescendant"
  collecting := t.name = "style" || s.decidesByText t
  options := { needed := t.needsPlaceholder }
  extent := { hasAction := t.name = "extent" && (t.last? "action").isSome }

/-- The frames after a start tag. -/
def framesAfter (s : State) (t : StartTag) : List Frame :=
  s.frameOf t :: (if s.countsSelected t then noteSelected s.frames else s.frames).modifyHead (noteChild t)

/-- The references of labels to controls after a start tag. -/
def controlsAfter (s : State) (t : StartTag) : References :=
  let ids := if labelable.contains t.name && !t.isInput "hidden" then t.attributes.ids else []
  let references := if t.name = "label" then (t.last? "for").toList.map (⟨t.locator, ·⟩) else []
  (s.controls.define ids).refer references

/-- The references of controls to forms after a start tag. -/
def formsAfter (s : State) (t : StartTag) : References :=
  let ids := if t.name = "form" then t.attributes.ids else []
  let references := if formAssociated.contains t.name then (t.get? "form").toList.map (⟨t.locator, ·⟩) else []
  (s.forms.define ids).refer references

/-- The references of shard inputs to lists after a start tag. -/
def listsAfter (s : State) (t : StartTag) : References :=
  let ids := if t.name = "datalist" then t.attributes.ids else []
  let references := if t.isShard then (t.last? "list").toList.map (⟨t.locator, ·⟩) else []
  (s.lists.define ids).refer references

/-- The references of templates to the names of inputs after a start tag. -/
def inputsAfter (s : State) (t : StartTag) : References :=
  let names := if t.name = "select" || t.name = "input" then (t.last? "name").toList else []
  (s.inputs.define names).refer (t.templateVariables.map (⟨t.locator, ·⟩))

/-- Whether the element at a depth names one of the IDs as its active descendant. -/
def isSettledBy (s : State) (ids : List String) (depth : Nat) : Bool :=
  ((s.frameAt? depth).bind (·.activeDescendant)).any ids.contains

/-- The elements without their active descendant after a start tag: those inside which the tag's IDs are none that they
name, and the new one if it names an ID and does not own elements elsewhere. -/
def pendingDescendantsAfter (s : State) (t : StartTag) : List (Nat × Locator) :=
  let others := s.pendingDescendants.filter fun (depth, _) => !s.isSettledBy t.attributes.ids depth
  if (t.last? "aria-activedescendant").isSome && !t.has "aria-owns" then
    (s.depth, t.locator) :: others.filter (·.1 ≠ s.depth)
  else others

/-- The state after the start tag of an element of the vocabulary. -/
def start (s : State) (t : StartTag) : State where
  sourceIsCss := s.sourceIsCss
  frames := s.framesAfter t
  controls := s.controlsAfter t
  forms := s.formsAfter t
  lists := s.listsAfter t
  inputs := s.inputsAfter t
  selfStyles := s.selfStyles ++ if t.isSelfStyle then [t.locator] else []
  pendingDescendants := s.pendingDescendantsAfter t
  singleSelects := if t.isSingleSelect then s.depth :: s.singleSelects.filter (· ≠ s.depth) else s.singleSelects

/-- The state after the start tag of an element outside the vocabulary. -/
def startOther (s : State) (locator : Locator) : State :=
  { s with frames := { ancestors := s.ancestors, name := none, locator } :: s.frames }

/-- The notices on the start tag of an element of the vocabulary. -/
def startNotices (s : State) (t : StartTag) : List Notice :=
  ((prohibitedAncestors t.name).filter s.ancestors.has).map
    (fun a => .violation (.prohibitedAncestor t.name a.name) t.locator) ++
  noticeIf t (t.name = "input" && !s.ancestors.extent) .inputOutsideExtent ++
  t.attributes.flatMap t.attributeNotices ++
  t.roleNotices ++
  t.inputNotices ++
  (if t.name = "link" then linkNotices s t else []) ++
  optionNotices s t

/-! ### End tags -/

/-- The frames around an element after its end, if its frame is `f`. -/
def framesAfterEnd (f : Frame) (uri name : String) (outer : List Frame) : List Frame :=
  if uri = xhtml && name = "option" then outer.modifyHead (noteOptionEnd f) else outer

/-- The state after the end of the element with frame `f`, which has the frames `outer` around it. -/
def finish (s : State) (f : Frame) (outer : List Frame) (uri name : String) : State :=
  { s with
    frames := framesAfterEnd f uri name outer
    inputs := if uri = xhtml && name = "extent" then {} else s.inputs
    singleSelects := s.singleSelects.filter (· ≠ outer.length)
    pendingDescendants := s.pendingDescendants.filter (·.1 ≠ outer.length) }

/-- The request to read the text of a `style` element, whose frame is `f`. -/
def styleNotices (s : State) (f : Frame) : List Notice :=
  let heading := if s.sourceIsCss then "" else "CSS: "
  match f.text.toList with
  | '\n' :: css => [.stylesheet (.ofList css) f.locator 1 heading]
  | _ => [.stylesheet f.text f.locator 0 heading]

/-- The notices that the name of an element gives rise to at its end, if its frame is `f`. -/
def elementNotices (s : State) (f : Frame) (locator : Locator) (name : String) : List Notice :=
  if name = "select" then selectNotices f locator
  else if name = "style" then s.styleNotices f
  else if name = "extent" then extentNotices s f locator
  else []

/-- The notices at the end of the element with frame `f`, which has the frames `outer` around it. -/
def endNotices (s : State) (f : Frame) (outer : List Frame) (locator : Locator) (uri name : String) : List Notice :=
  (if uri = xhtml then s.elementNotices f locator name else []) ++
    ((s.pendingDescendants.lookup outer.length).toList.map (.violation .activeDescendantElsewhere ·))

/-! ### Documents -/

/-- The notices at the end of the document. -/
def documentNotices (s : State) : List Notice :=
  (if s.selfStyles.length > 1 then s.selfStyles.map (.violation .severalSelfStyles ·) else []) ++
  s.controls.unresolved.map (fun r => .violation .labelForNoControl r.locator) ++
  s.forms.unresolved.map (fun r => .violation .formOfNoForm r.locator) ++
  s.lists.unresolved.map (fun r => .violation .listOfNoDatalist r.locator)

/-- The state after an event. -/
def next (s : State) : Event → State
  | .startDocument => s.clear
  | .endDocument => s.clear
  | .reset => s.reset
  | .sourceIsCss value => { s with sourceIsCss := value }
  | .characters text => { s with frames := s.frames.modifyHead (·.collect text) }
  | .startElement locator uri name attributes =>
    if uri = xhtml then s.start ⟨locator, name, attributes⟩ else s.startOther locator
  | .endElement _ uri name =>
    match s.frames with
    | [] => s
    | f :: outer => s.finish f outer uri name

/-- What an event makes the rules say, in order. -/
def notices (s : State) : Event → List Notice
  | .startElement locator uri name attributes =>
    if uri = xhtml then s.startNotices ⟨locator, name, attributes⟩ else []
  | .endElement locator uri name =>
    match s.frames with
    | [] => []
    | f :: outer => s.endNotices f outer locator uri name
  | .endDocument => s.documentNotices
  | _ => []

end State

end MapMarkup.Rules
