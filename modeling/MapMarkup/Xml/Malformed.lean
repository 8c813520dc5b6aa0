import MapMarkup.Source.Position
import MapMarkup.Text.Quoted

/-!
# Markup that is not well-formed

A document stops being well-formed inside some construct, for some cause; or at a place where no construct can start.
Positions are those of the construct's first character and, where the cause is a single place, of that place too.
-/

namespace MapMarkup.Xml

/-- The constructs that the markup of a document consists of. -/
inductive Construct where
  | declaration
  | comment
  | instruction
  | doctype
  | entity
  | element
  | attribute
  | cdata
  | characterData
deriving DecidableEq, Repr

/-- Why a construct is broken. -/
inductive Cause where
  | endOfText
  | invalidName
  | unusableChar (char : Char) (position : Position)
  /-- None of the wanted characters stands here; `found` shows the first byte of what does. -/
  | expectedChar (wanted : List Char) (found : Char) (position : Position)
  | expectedQuote (found : Char) (position : Position)
  | expectedSpace (found : Char) (position : Position)
  /-- None of the wanted texts stands here. -/
  | expectedText (wanted : List String) (position : Position)
  | invalidExternalId
  | hyphensInComment
  | hyphenAtCommentEnd
  | cdataEndInText
deriving DecidableEq, Repr

/-- Where and why a document stops being well-formed. -/
inductive Malformed where
  | invalid (construct : Construct) (cause : Cause) (position : Position)
  | unknownToken (position : Position)
deriving DecidableEq, Repr

/-- The name of a construct in messages. -/
def Construct.name : Construct → String
  | .declaration => "XML declaration"
  | .comment => "comment"
  | .instruction => "processing instruction"
  | .doctype => "DTD"
  | .entity => "DTD entity"
  | .element => "element"
  | .attribute => "attribute"
  | .cdata => "CDATA"
  | .characterData => "character data"

/-- What was wanted, each in single quotes, with commas between. -/
def wantedList (texts : List String) : String :=
  ", ".intercalate (texts.map fun t => "'" ++ t ++ "'")

/-- The cause in words. -/
def Cause.message : Cause → String
  | .endOfText => "unexpected end of stream"
  | .invalidName => "invalid name token"
  | .unusableChar c p => "a non-XML character " ++ Text.quotedChar c ++ " found at " ++ p.lineColumn
  | .expectedChar wanted found p =>
    "expected " ++ wantedList (wanted.map Char.toString) ++ " not '" ++ found.toString ++ "' at " ++ p.lineColumn
  | .expectedQuote found p => "expected quote mark not '" ++ found.toString ++ "' at " ++ p.lineColumn
  | .expectedSpace found p => "expected space not '" ++ found.toString ++ "' at " ++ p.lineColumn
  | .expectedText wanted p => "expected " ++ wantedList wanted ++ " at " ++ p.lineColumn
  | .invalidExternalId => "invalid ExternalID"
  | .hyphensInComment => "'--' is not allowed in comments"
  | .hyphenAtCommentEnd => "comment cannot end with '-'"
  | .cdataEndInText => "']]>' is not allowed inside a character data"

namespace Malformed

/-- The place that the error is about. -/
def position : Malformed → Position
  | .invalid _ _ p => p
  | .unknownToken p => p

/-- The error in words. -/
def message : Malformed → String
  | .invalid construct cause p =>
    "invalid " ++ construct.name ++ " at " ++ p.lineColumn ++ " cause " ++ cause.message
  | .unknownToken p => "unknown token at " ++ p.lineColumn

end Malformed

end MapMarkup.Xml
