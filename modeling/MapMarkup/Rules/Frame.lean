import MapMarkup.Locator
import MapMarkup.Vocabulary

/-!
# Frames of open elements

For each open element a frame keeps what later rules need: what the element's own start tag says, and what its
descendants have told it. The notes about options are for `select` elements and those about inputs and links for
`extent` elements, but every parent takes them. An element outside the vocabulary's namespace has a frame without a
name.
-/

namespace MapMarkup.Rules

open Vocabulary (Ancestor)

/-- A set of the ancestors that matter. -/
structure Ancestors where
  head : Bool := false
  body : Bool := false
  extent : Bool := false
deriving DecidableEq, Repr

namespace Ancestors

/-- Whether the set has an ancestor. -/
def has (s : Ancestors) : Ancestor → Bool
  | .head => s.head
  | .body => s.body
  | .extent => s.extent

/-- The set with one more ancestor. -/
def insert (s : Ancestors) : Ancestor → Ancestors
  | .head => { s with head := true }
  | .body => { s with body := true }
  | .extent => { s with extent := true }

@[simp] theorem has_empty (a : Ancestor) : ({} : Ancestors).has a = false := by cases a <;> rfl

theorem has_insert (s : Ancestors) (a b : Ancestor) : (s.insert a).has b = (decide (a = b) || s.has b) := by
  cases a <;> cases b <;> simp [has, insert]

end Ancestors

/-- What an element knows about its options. -/
structure OptionNotes where
  /-- Whether its start tag asks for a first option that is a placeholder. -/
  needed : Bool := false
  /-- Whether an option has ended in it. -/
  found : Bool := false
  /-- Whether an option without a value has started in it before another one has ended. -/
  valuelessFound : Bool := false
  /-- Whether an option below it is selected. -/
  selectedFound : Bool := false
  /-- The option that should be a placeholder and is none. -/
  nonEmpty : Option Locator := none
deriving DecidableEq, Repr

/-- What an element knows about its inputs and links. -/
structure ExtentNotes where
  /-- Whether its start tag has an `action`. -/
  hasAction : Bool := false
  zoomFound : Bool := false
  queryFound : Bool := false
  templateFound : Bool := false
  /-- The axes of its location inputs, each with its coordinate system. -/
  axes : List (String × String) := []
deriving DecidableEq, Repr

structure Frame where
  /-- The ancestors of the element that matter. -/
  ancestors : Ancestors
  /-- The name of the element, unless it is outside the vocabulary's namespace. -/
  name : Option String
  /-- The place of its start tag. -/
  locator : Locator
  /-- The ID in its `aria-activedescendant`. -/
  activeDescendant : Option String := none
  /-- Whether character data are collected. -/
  collecting : Bool := false
  /-- The character data collected so far. -/
  text : String := ""
  options : OptionNotes := {}
  extent : ExtentNotes := {}
deriving DecidableEq, Repr

namespace Frame

/-- Whether the frame is that of an element with the given name. -/
def isNamed (f : Frame) (name : String) : Bool :=
  f.name = some name

/-- The ancestors of a child of the element. -/
def childAncestors (f : Frame) : Ancestors :=
  match f.name.bind Ancestor.ofName? with
  | some a => f.ancestors.insert a
  | none => f.ancestors

/-- Adds character data, if they are collected. -/
def collect (f : Frame) (text : String) : Frame :=
  if f.collecting then { f with text := f.text ++ text } else f

end Frame

end MapMarkup.Rules
