import MapMarkup.Rules.Frame
import MapMarkup.Rules.References

/-!
# What is known about a document

The state between two events: the frames of the open elements, innermost first; the references of the document and of
the present extent; and, under the depths of open elements, those whose active descendant has not been found and the
`select` elements without `multiple`. The depth of an element is the number of elements around it.
-/

namespace MapMarkup.Rules

structure State where
  /-- Whether the document is a stylesheet, so that messages need not say that they are about CSS. -/
  sourceIsCss : Bool := false
  frames : List Frame := []
  /-- From labels to the IDs of form controls. -/
  controls : References := {}
  /-- From form controls to the IDs of forms. -/
  forms : References := {}
  /-- From hidden inputs to the IDs of lists of data. -/
  lists : References := {}
  /-- From the variables of templates to the names of inputs, since the last extent. -/
  inputs : References := {}
  /-- The links that are both `self` and `style`. -/
  selfStyles : List Locator := []
  /-- The elements whose active descendant has not been found, with the places of their start tags. -/
  pendingDescendants : List (Nat × Locator) := []
  singleSelects : List Nat := []

namespace State

/-- The number of open elements. -/
def depth (s : State) : Nat := s.frames.length

/-- The frame of the innermost open element. -/
def parent? (s : State) : Option Frame := s.frames.head?

/-- The name of the innermost open element, if it has one. -/
def parentName? (s : State) : Option String := s.parent?.bind (·.name)

/-- The ancestors of an element that starts now. -/
def ancestors (s : State) : Ancestors :=
  match s.parent? with
  | some f => f.childAncestors
  | none => {}

/-- The frame of the open element at a depth. -/
def frameAt? (s : State) (depth : Nat) : Option Frame := s.frames.reverse[depth]?

/-- The frames from the innermost open `select` on outwards. -/
def fromSelect (s : State) : List Frame := s.frames.dropWhile fun f => !f.isNamed "select"

/-- Forgets all references of the document, and its links. -/
def clearReferences (s : State) : State :=
  { s with
    controls := s.controls.clear
    forms := s.forms.clear
    lists := s.lists.clear
    inputs := s.inputs.clear
    selfStyles := [] }

/-- Forgets what the document has said, except which elements are open. -/
def reset (s : State) : State :=
  { s.clearReferences with
    pendingDescendants := []
    singleSelects := [] }

/-- Forgets the document. -/
def clear (s : State) : State :=
  { s.reset with frames := [] }

end State

end MapMarkup.Rules
