import MapMarkup.Xml.Reference

/-!
# Entities and their replacement texts

The first declaration of an entity is the binding one, and the five predefined entities come before all declarations.
A replacement text has its character references expanded when it is declared; references to entities in it are kept as
they are written, and are not expanded again where the entity is used. So a text grows by at most one replacement text
for each of its references.

In an attribute value a literal tab or line break becomes one space; a white-space character that a reference
stands for is kept.
-/

namespace MapMarkup.Xml

/-- The names of the declared entities with their replacement texts; the first entry of a name counts. -/
abbrev Entities : Type := List (List Char × List Char)

/-- Where a text with references stands. -/
inductive Context where
  | content
  | attributeValue
deriving DecidableEq, Repr

/-- Each line break, in whichever of its three forms, and each tab becomes a space. -/
def spaceOut : List Char → List Char
  | [] => []
  | '\r' :: '\n' :: cs => ' ' :: spaceOut cs
  | c :: cs => (if c = '\r' || c = '\n' || c = '\t' then ' ' else c) :: spaceOut cs

namespace Entities

/-- The entities that every document has. -/
def predefined : Entities :=
  [("lt".toList, ['<']), ("gt".toList, ['>']), ("amp".toList, ['&']), ("apos".toList, ['\'']), ("quot".toList, ['"'])]

/-- The replacement text of the entity of a name. -/
def get? (entities : Entities) (name : List Char) : Option (List Char) :=
  List.lookup name entities

/-- Declares an entity; this is without effect where the name has a replacement text. -/
def declare (entities : Entities) (name text : List Char) : Entities :=
  entities ++ [(name, text)]

/-- What a piece of a text contributes to the expanded text. -/
def expandPiece (entities : Entities) (context : Context) : Piece → Except ReadError (List Char)
  | .literal cs => .ok (if context = .attributeValue then spaceOut cs else cs)
  | .unclosed ampersand => .error (.brokenReference ampersand)
  | .reference written =>
    match referent written.chars with
    | .character c => .ok [c]
    | .invalid => .error (.brokenReference written.span)
    | .entity =>
      match entities.get? written.chars with
      | some text => .ok text
      | none => .error (.undefinedEntity written)

/-- The text of a passage with its references expanded; the first reference that cannot be expanded is the error. -/
def expand (entities : Entities) (context : Context) (p : Passage) : Except ReadError (List Char) := do
  return (← (pieces p.offset p.chars).mapM (entities.expandPiece context)).flatten

end Entities

/-- What a piece of the value in an entity declaration contributes to the replacement text. -/
def replacementPiece : Piece → Except ReadError (List Char)
  | .literal cs => .ok cs
  | .unclosed ampersand => .error (.brokenReference ampersand)
  | .reference written =>
    match referent written.chars with
    | .character c => .ok [c]
    | .invalid => .error (.brokenReference written.span)
    | .entity => .ok ('&' :: written.chars ++ [';'])

/-- The replacement text of an entity declared with the given value. -/
def replacementText (value : Passage) : Except ReadError (List Char) := do
  return (← (pieces value.offset value.chars).mapM replacementPiece).flatten

end MapMarkup.Xml
