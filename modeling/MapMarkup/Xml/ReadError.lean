import MapMarkup.Xml.Lexeme

/-!
# Why a document cannot be read

Reading stops at markup that is not well-formed, at a name or a reference that means nothing, at an entity that would
have to be fetched, and at tags that do not match. Each cause keeps the passages of the document that it is about.
-/

namespace MapMarkup.Xml

inductive ReadError where
  | malformed (error : Malformed)
  | undefinedQualifier (qualifier : Passage)
  | undefinedEntity (name : Passage)
  /-- A reference without a semicolon, or one whose number is no character. -/
  | brokenReference (span : Span)
  /-- An entity with a system or public identifier; such entities are never fetched. -/
  | externalEntity (name : Passage)
  | mismatchedEndTag (opened closing : Span)
  | unexpectedEndTag (closing : Span)
  | unclosedElement (opened : Span)
deriving DecidableEq, Repr

end MapMarkup.Xml
