/-!
# The vocabulary of map markup

The tables that the rules look things up in: ancestors that matter, coordinate systems and their axes, attributes of
`input` that some input types must not have, roles that elements have anyway, and elements that labels and forms are
about. The first entry of a table counts where a key has several.
-/

namespace MapMarkup.Vocabulary

/-- The namespace of the elements that the rules are about. -/
def xhtml : String := "http://www.w3.org/1999/xhtml"

/-- The start of the URIs of use counters. -/
def useCounterBase : String := "http://validator.nu/properties/"

/-- The use counter for problems in a `style` element. -/
def styleElementErrors : String := useCounterBase ++ "style-element-errors-found"

/-- The use counter for problems in a `style` attribute. -/
def styleAttributeErrors : String := useCounterBase ++ "style-attribute-errors-found"

/-- The elements of which every element knows whether it has one as an ancestor. -/
inductive Ancestor where
  | head
  | body
  | extent
deriving DecidableEq, Repr

namespace Ancestor

/-- All of them, in the order of messages. -/
def all : List Ancestor := [head, body, extent]

def name : Ancestor → String
  | head => "head"
  | body => "body"
  | extent => "extent"

/-- The one with the given name. -/
def ofName? (name : String) : Option Ancestor :=
  all.find? (·.name = name)

end Ancestor

/-- The ancestors that an element must not have. -/
def prohibitedAncestors (element : String) : List Ancestor :=
  if element = "extent" then [.extent] else []

/-- The coordinate systems, each with its two axes. -/
def coordinateSystems : List (String × List String) := [
  ("tilematrix", ["row", "column"]),
  ("map", ["i", "j"]),
  ("tile", ["i", "j"]),
  ("tcrs", ["x", "y"]),
  ("gcrs", ["latitude", "longitude"]),
  ("pcrs", ["easting", "northing"])]

/-- The axes of a coordinate system. -/
def axesOf? (system : String) : Option (List String) :=
  coordinateSystems.lookup system

/-- The first coordinate system that has the axis. -/
def systemOfAxis? (axis : String) : Option String :=
  (coordinateSystems.find? fun (_, axes) => axes.contains axis).map (·.1)

/-- The attributes of `input` that make sense for some input types only, with those types. -/
def inputAttributes : List (String × List String) := [
  ("min", ["zoom", "location", "width", "height"]),
  ("max", ["zoom", "location", "width", "height"]),
  ("units", ["location"]),
  ("axis", ["location"]),
  ("position", ["location"]),
  ("shard", ["hidden"]),
  ("autocomplete", ["hidden", "text", "search", "url", "tel", "email", "password", "date", "month", "week", "time",
    "datetime-local", "number", "range", "color"]),
  ("list", ["text", "search", "url", "tel", "email", "date", "month", "week", "time", "datetime-local", "number",
    "range", "color"]),
  ("maxlength", ["text", "search", "url", "tel", "email", "password"]),
  ("minlength", ["text", "search", "url", "tel", "email", "password"]),
  ("pattern", ["text", "search", "url", "tel", "email", "password"]),
  ("placeholder", ["text", "search", "url", "tel", "email", "password", "number"]),
  ("readonly", ["text", "search", "url", "tel", "email", "password", "date", "month", "week", "time",
    "datetime-local", "number"]),
  ("required", ["text", "search", "url", "tel", "email", "password", "date", "month", "week", "time",
    "datetime-local", "number", "checkbox", "radio", "file"]),
  ("size", ["text", "search", "url", "tel", "email", "password"])]

/-- The input types that may have an attribute, if it is not for all of them. -/
def allowedInputTypes? (name : String) : Option (List String) :=
  inputAttributes.lookup name

/-- The attributes that the rules for start tags read themselves or pass over, so that they do not look them up in
tables. -/
def ownAttributes : List String := ["tref", "list", "name", "action", "role", "aria-activedescendant", "tabindex", "href",
  "controls", "type", "lang", "id", "selected", "itemid", "itemref", "itemscope", "itemtype", "method"]

/-- The attributes that are not looked up in tables for one element, with this element. -/
def ownAttributesByElement : List (String × String) := [("label", "for"), ("link", "rel")]

/-- Whether an attribute of an element is not looked up in tables. -/
def isOwnAttribute (element name : String) : Bool :=
  ownAttributes.contains name || ownAttributesByElement.contains (element, name)

/-- The attributes that imply the ARIA state of the same name. -/
def attributesWithState : List String := ["disabled", "hidden", "readonly", "required"]

/-- The roles that elements have without saying so. -/
def elementRoles : List (String × String) := [
  ("body", "document"),
  ("datalist", "listbox"),
  ("details", "group"),
  ("form", "form"),
  ("hr", "separator"),
  ("main", "main"),
  ("math", "math"),
  ("meter", "progressbar"),
  ("nav", "navigation"),
  ("option", "option"),
  ("progress", "progressbar"),
  ("select", "listbox"),
  ("summary", "button"),
  ("textarea", "textbox")]

/-- The role that an element has without saying so. -/
def roleOfElement? (element : String) : Option String :=
  elementRoles.lookup element

/-- The roles that `input` elements have without saying so, by input type. -/
def inputRoles : List (String × String) := [
  ("button", "button"),
  ("checkbox", "checkbox"),
  ("image", "button"),
  ("number", "spinbutton"),
  ("radio", "radio"),
  ("range", "slider"),
  ("reset", "button"),
  ("submit", "button")]

/-- The role that an `input` element of a type has without saying so. -/
def roleOfInput? (inputType : String) : Option String :=
  inputRoles.lookup inputType

/-- The elements that a `label` may be for, hidden inputs apart. -/
def labelable : List String := ["button", "input", "meter", "output", "progress", "select", "textarea"]

/-- The elements whose `form` attribute names the form that they belong to. -/
def formAssociated : List String := ["button", "fieldset", "input", "object", "output", "select", "textarea"]

end MapMarkup.Vocabulary
