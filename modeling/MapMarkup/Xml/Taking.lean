import MapMarkup.Event
import MapMarkup.Xml.Entity
import MapMarkup.Xml.Namespace
import MapMarkup.Xml.Token

/-!
# Taking a token

A reader takes a token piece by piece: it looks up namespaces, expands texts, opens and ends elements, declares entities
and gives events. Any look-up may fail, and then the rest of the token is not taken; but nothing is undone, so that what
has been opened, declared or said before the failure stays (`Taking`). That a failing token still leaves no trace is
due to the order of the pieces alone: see `Taking.token`.
-/

namespace MapMarkup.Xml

/-- The elements that are open, the entities that are declared, and the events given so far. -/
structure Progress where
  opened : OpenElements
  entities : Entities
  said : List Event
deriving DecidableEq, Repr

/-- A piece of taking a token. It may fail, and what it has done by then stays done. -/
abbrev Taking : Type → Type :=
  EStateM ReadError Progress

namespace Taking

/-- Gives an event. -/
def say (event : Event) : Taking Unit :=
  modify fun p => { p with said := p.said ++ [event] }

/-- Starts an element inside the innermost one. -/
def push (name : QName) (span : Span) : Taking Unit :=
  modify fun p => { p with opened := { name, span } :: p.opened }

/-- Ends the innermost element. -/
def pop : Taking Unit :=
  modify fun p => { p with opened := p.opened.tail }

/-- Adds an attribute to the innermost element; without effect where none is open. -/
def addAttribute (name : QName) (value : Passage) : Taking Unit :=
  modify fun p => { p with opened := p.opened.modifyHead (·.addAttribute name value) }

/-- Declares an entity. -/
def declare (name : Passage) (text : List Char) : Taking Unit :=
  modify fun p => { p with entities := p.entities.declare name.chars text }

/-- A text with its references expanded. -/
def expand (context : Context) (text : Passage) : Taking (List Char) := do
  MonadExcept.ofExcept ((← get).entities.expand context text)

/-- The URI and the name of the innermost element, both empty where none is open. -/
def currentElement : Taking (String × String) := do
  let opened := (← get).opened
  match opened with
  | [] => return ("", "")
  | e :: _ =>
    let uri ← MonadExcept.ofExcept (opened.namespaceOf e.name.qualifier)
    return (.ofList uri, .ofList e.name.base.chars)

/-- An attribute with its namespace resolved and its value expanded. -/
def resolveAttribute (a : RawAttribute) : Taking Attribute := do
  let uri ← MonadExcept.ofExcept ((← get).opened.namespaceOfAttribute a.name.qualifier)
  let value ← expand .attributeValue a.value
  return ⟨.ofList uri, .ofList a.name.base.chars, .ofList value,
    uri = xmlNamespace && a.name.base.chars = "id".toList⟩

/-- The end of a start tag: the innermost element starts, with all its attributes. -/
def startElement (place : Locator) : Taking (String × String) := do
  let (uri, name) ← currentElement
  let attributes ← ((← get).opened.head?.elim [] (·.attributes)).mapM resolveAttribute
  say (.startElement place uri name attributes)
  return (uri, name)

/-- An end tag, which has to match the start tag of the innermost element. The URI is that of this element. -/
def endElement (name : QName) (span : Span) : Taking String := do
  match (← get).opened with
  | [] => throw (.unexpectedEndTag span)
  | e :: _ =>
    unless e.name.sameAs name do throw (.mismatchedEndTag e.span span)
    let (uri, _) ← currentElement
    pop
    return uri

/-- What taking a token does, piece by piece. The place is that of a tag which the token may end. -/
def token (place : Locator) : Token → Taking Unit
  | .aside => return
  | .entity name none => throw (.externalEntity name)
  | .entity name (some value) => do
    let text ← MonadExcept.ofExcept (replacementText value)
    declare name text
  | .elementStart name span => push name span
  | .attribute name value => addAttribute name value
  | .openEnd => do
    let _ ← startElement place
  | .emptyEnd => do
    let (uri, name) ← startElement place
    pop
    say (.endElement place uri name)
  | .closeTag name span => do
    let uri ← endElement name span
    say (.endElement place uri (.ofList name.base.chars))
  | .text content => do
    let text ← expand .content content
    say (.characters (.ofList text))
  | .cdata content => say (.characters (.ofList content.chars))

end Taking

end MapMarkup.Xml
