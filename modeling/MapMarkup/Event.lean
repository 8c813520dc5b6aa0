import MapMarkup.Locator

/-!
# Events of a document

What a document says, in order: its start and end, the start and end of each element, and character data. Names are
given with the URI of their namespace, which is empty for names in none. Besides, a host may have the present document
forgotten, or say whether the document is a stylesheet.
-/

namespace MapMarkup

/-- One attribute of a start tag. -/
structure Attribute where
  /-- The URI of its namespace; empty for attributes in none. -/
  uri : String
  name : String
  value : String
  /-- Whether the value is an ID whatever the name is. -/
  isId : Bool
deriving DecidableEq, Repr

/-- The attributes of a start tag, in the order of the document. -/
abbrev Attributes : Type := List Attribute

namespace Attributes

/-- Attributes in no namespace, from their names and values. -/
def ofPairs (pairs : List (String × String)) : Attributes :=
  pairs.map fun (name, value) => ⟨"", name, value, false⟩

/-- The value of the first attribute with the given namespace and name. -/
def get? (attributes : Attributes) (uri name : String) : Option String :=
  (attributes.find? fun a => a.name = name && a.uri = uri).map (·.value)

/-- Whether there is an attribute with the given namespace and name. -/
def has (attributes : Attributes) (uri name : String) : Bool :=
  (attributes.get? uri name).isSome

/-- The value of the last attribute with the given name in no namespace. -/
def last? (attributes : Attributes) (name : String) : Option String :=
  (attributes.filter fun a => a.name = name && a.uri = "").getLast?.map (·.value)

/-- The IDs that the attributes give to their element: the values, unless empty, of attributes that are flagged as IDs
or called `id`, in whichever namespace. -/
def ids (attributes : Attributes) : List String :=
  (attributes.filter fun a => (a.isId || a.name = "id") && a.value ≠ "").map (·.value)

end Attributes

/-- What may happen next. -/
inductive Event where
  | startDocument
  | endDocument
  /-- The document is to be forgotten. -/
  | reset
  | startElement (locator : Locator) (uri name : String) (attributes : Attributes)
  | endElement (locator : Locator) (uri name : String)
  | characters (text : String)
  /-- The document is, or is not, a stylesheet itself. -/
  | sourceIsCss (value : Bool)
deriving DecidableEq, Repr

end MapMarkup
