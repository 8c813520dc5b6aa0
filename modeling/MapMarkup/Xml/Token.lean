import MapMarkup.Xml.Lexeme

/-!
# Tokens of a document

A token is one construct of a document. It keeps the names and the texts that readers of the document need, each with
the place where it stands.
-/

namespace MapMarkup.Xml

/-- The parts of a document, in the order of the text. -/
inductive Token where
  /-- A comment, a processing instruction, the XML declaration, or the start or the end of the DTD. -/
  | aside
  /-- An entity declaration; an entity without a value is external. -/
  | entity (name : Passage) (value : Option Passage)
  /-- `<name`, which the span covers. -/
  | elementStart (name : QName) (span : Span)
  | attribute (name : QName) (value : Passage)
  /-- `>` after a start tag. -/
  | openEnd
  /-- `/>` after a start tag. -/
  | emptyEnd
  /-- `</name >`, which the span covers. -/
  | closeTag (name : QName) (span : Span)
  | text (content : Passage)
  | cdata (content : Passage)
deriving DecidableEq, Repr

end MapMarkup.Xml
