import MapMarkup.Xml.ReadError

/-!
# Open elements and their namespaces

An element that has been started keeps its name, the namespaces that its start tag declares, and its other attributes.
A qualifier stands for the namespace that the innermost open element declares for it, the element itself included; of
two declarations in one tag the first one counts. The empty qualifier stands for no namespace where none is declared,
and `xml` always stands for one and the same namespace. The URI is the declared value as it is written.
-/

namespace MapMarkup.Xml

/-- The namespace that the qualifier `xml` stands for. -/
def xmlNamespace : List Char :=
  "http://www.w3.org/XML/1998/namespace".toList

/-- An attribute as it is written, its qualifier not resolved and its value not expanded. -/
structure RawAttribute where
  name : QName
  value : Passage
deriving DecidableEq, Repr

/-- An element that has been started and not been ended. -/
structure OpenElement where
  name : QName
  /-- The `<` and the name of the start tag. -/
  span : Span
  /-- The declared qualifiers with their namespaces, in the order of the tag. -/
  bindings : List (List Char × List Char) := []
  attributes : List RawAttribute := []
deriving DecidableEq, Repr

namespace OpenElement

/-- Adds an attribute of the start tag: `xmlns` declares the namespace of the empty qualifier, `xmlns:q` that of `q`,
and any other name is an attribute. -/
def addAttribute (e : OpenElement) (name : QName) (value : Passage) : OpenElement :=
  if name.qualifier.chars = "xmlns".toList then { e with bindings := e.bindings ++ [(name.base.chars, value.chars)] }
  else if name.qualifier.chars = [] && name.base.chars = "xmlns".toList then
    { e with bindings := e.bindings ++ [([], value.chars)] }
  else { e with attributes := e.attributes ++ [⟨name, value⟩] }

end OpenElement

/-- The open elements, innermost first. -/
abbrev OpenElements : Type := List OpenElement

namespace OpenElements

/-- The namespace that is declared for a qualifier by the innermost element that declares one. -/
def binding? (opened : OpenElements) (qualifier : List Char) : Option (List Char) :=
  opened.findSome? fun e => List.lookup qualifier e.bindings

/-- The namespace that the qualifier of an element stands for. -/
def namespaceOf (opened : OpenElements) (qualifier : Passage) : Except ReadError (List Char) :=
  if qualifier.chars = [] then .ok ((opened.binding? []).getD [])
  else if qualifier.chars = "xml".toList then .ok xmlNamespace
  else
    match opened.binding? qualifier.chars with
    | some uri => .ok uri
    | none => .error (.undefinedQualifier qualifier)

/-- The namespace that the qualifier of an attribute stands for; an attribute without one is in no namespace. -/
def namespaceOfAttribute (opened : OpenElements) (qualifier : Passage) : Except ReadError (List Char) :=
  if qualifier.chars = [] then .ok [] else opened.namespaceOf qualifier

end OpenElements

end MapMarkup.Xml
