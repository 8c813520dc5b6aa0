import MapMarkup.Xml.Token

/-!
# Productions of markup

Each construct is scanned from its first character to its last one and gives one token. A scan of a construct
advances whenever it succeeds (`advances_comment` and its siblings), as its first step moves over the characters by
which the construct is recognised.
-/

namespace MapMarkup.Xml

namespace Production

open Scan (ahead fail position take takeWhile)
open Lexeme

/-- White space before the next part of an XML declaration, which may be left out before its end. -/
def declarationSpace : Lexeme Unit := do
  match ← ahead with
  | [] => return
  | c :: _ =>
    if isSpace c then spaces
    else if ← sees "?>" then return
    else fail (.expectedSpace (leadByte c) (← position))

/-- The version in an XML declaration. -/
def declarationVersion : Lexeme Unit := do
  text "version"
  equals
  let mark ← quote
  text "1."
  let _ ← takeWhile Char.isDigit
  char mark

/-- The encoding in an XML declaration, if there is one, with the white space after it. -/
def declarationEncoding : Lexeme Unit := do
  if ← sees "encoding" then
    text "encoding"
    equals
    let mark ← quote
    let _ ← takeWhile fun c => c.isAlphanum || c = '.' || c = '-' || c = '_'
    char mark
    declarationSpace

/-- Whether an XML declaration calls the document standalone, if it says so. -/
def declarationStandalone : Lexeme Unit := do
  if ← sees "standalone" then
    text "standalone"
    equals
    let mark ← quote
    let p ← position
    let answer ← name
    if answer.chars = "yes".toList || answer.chars = "no".toList then char mark
    else fail (.expectedText ["yes", "no"] p)

/-- The XML declaration. -/
def declaration : Lexeme Token := do
  text "<?xml "
  spaces
  declarationVersion
  declarationSpace
  declarationEncoding
  declarationStandalone
  spaces
  text "?>"
  return .aside

/-- Whether a text occurs in another one. -/
def occursIn (pattern : List Char) : List Char → Bool
  | [] => pattern = []
  | c :: cs => pattern.isPrefixOf (c :: cs) || occursIn pattern cs

/-- A comment: two hyphens must not stand in it, nor one at its end. -/
def comment : Lexeme Token := do
  text "<!--"
  let content ← charsUntilText "-->"
  text "-->"
  if occursIn ['-', '-'] content.chars then fail .hyphensInComment
  else if content.chars.getLast? = some '-' then fail .hyphenAtCommentEnd
  else return .aside

/-- A processing instruction. -/
def instruction : Lexeme Token := do
  text "<?"
  let _ ← name
  spaces
  let _ ← charsUntilText "?>"
  text "?>"
  return .aside

/-- A section of character data in which markup is not recognised. -/
def cdataSection : Lexeme Token := do
  text "<![CDATA["
  let content ← charsUntilText "]]>"
  text "]]>"
  return .cdata content

/-- The system identifier, or the public and the system identifier, of an external entity; false when there is
none. -/
def externalId : Lexeme Bool := do
  if ← sees "SYSTEM" then
    text "SYSTEM"
    someSpace
    let _ ← quotedText
    return true
  else if ← sees "PUBLIC" then
    text "PUBLIC"
    someSpace
    let _ ← quotedText
    someSpace
    let _ ← quotedText
    return true
  else return false

/-- A document type declaration up to its opening bracket, which gives true, or up to its end, which gives false. -/
def doctype : Lexeme Bool := do
  text "<!DOCTYPE"
  someSpace
  let _ ← name
  spaces
  let _ ← externalId
  spaces
  return (← charOf ['[', '>']) = '['

/-- The end of a document type declaration that has a bracketed part. -/
def doctypeEnd : Lexeme Token := do
  text "]"
  spaces
  char '>'
  return .aside

/-- The notation of an unparsed entity, if one is named; only at the end of the text may its name be missing. -/
def notationName : Lexeme Unit := do
  if ← sees "NDATA" then
    text "NDATA"
    someSpace
    match ← ahead with
    | [] => return
    | _ =>
      let _ ← name

/-- The value of an entity, or none for an external entity. Only a general entity may name a notation. -/
def entityValue (general : Bool) : Lexeme (Option Passage) := do
  match ← ahead with
  | [] => fail .endOfText
  | c :: _ =>
    if c = '"' || c = '\'' then return some (← quotedText)
    else if c = 'S' || c = 'P' then
      if ← externalId then
        if general then
          spaces
          notationName
        return none
      else fail .invalidExternalId
    else fail (.expectedChar ['"', '\'', 'S', 'P'] (leadByte c) (← position))

/-- An entity declaration. Parameter entities, which have a percent sign, give the same token as general ones. -/
def entityDeclaration : Lexeme Token := do
  text "<!ENTITY"
  someSpace
  let parameter ← sees "%"
  if parameter then
    char '%'
    someSpace
  let n ← name
  someSpace
  let value ← entityValue !parameter
  spaces
  char '>'
  return .entity n value

/-- The beginning of a start tag. -/
def elementStart : Lexeme Token := do
  let p ← position
  char '<'
  let n ← qname
  return .elementStart n ⟨p.offset, (← position).offset⟩

/-- An end tag. -/
def closeTag : Lexeme Token := do
  let p ← position
  text "</"
  let n ← qname
  spaces
  char '>'
  return .closeTag n ⟨p.offset, (← position).offset⟩

/-- An attribute; its value holds no `<`. -/
def attributeSpec : Lexeme Token := do
  let n ← qname
  equals
  let mark ← quote
  let value ← charsUntil fun cs => cs.head? = some mark || cs.head? = some '<'
  char mark
  return .attribute n value

/-- The next part of a start tag: its end, or white space and an attribute. -/
def inTag : Lexeme Token := do
  let gap ← takeWhile isSpace
  match ← ahead with
  | [] => if gap = [] then fail .endOfText else attributeSpec
  | '/' :: _ =>
    char '/'
    char '>'
    return .emptyEnd
  | '>' :: _ =>
    char '>'
    return .openEnd
  | c :: _ => if gap = [] then fail (.expectedSpace (leadByte c) (← position)) else attributeSpec

/-- Character data up to the next markup; the end of a CDATA section must not stand in it. -/
def textRun : Lexeme Token := do
  let content ← charsUntilText "<"
  if occursIn "]]>".toList content.chars then fail .cdataEndInText
  else return .text content

/-! ### Every construct takes at least one character -/

open Scan (Advances)

theorem advances_declaration : Advances declaration := (advances_text (by decide)).bind _

theorem advances_comment : Advances comment := (advances_text (by decide)).bind _

theorem advances_instruction : Advances instruction := (advances_text (by decide)).bind _

theorem advances_cdataSection : Advances cdataSection := (advances_text (by decide)).bind _

theorem advances_doctype : Advances doctype := (advances_text (by decide)).bind _

theorem advances_doctypeEnd : Advances doctypeEnd := (advances_text (by decide)).bind _

theorem advances_entityDeclaration : Advances entityDeclaration := (advances_text (by decide)).bind _

theorem advances_elementStart : Advances elementStart :=
  .of_bind fun _ => (advances_char '<').bind _

theorem advances_closeTag : Advances closeTag :=
  .of_bind fun _ => (advances_text (by decide)).bind _

private theorem advances_attributeSpec : Advances attributeSpec :=
  .of_bind fun _ => .of_bind fun _ => advances_quote.bind _

theorem advances_inTag : Advances inTag := by
  refine .of_bind fun gap => .of_bind fun cs => ?_
  split
  · split
    · exact .fail _
    · exact advances_attributeSpec
  · exact (advances_char '/').bind _
  · exact (advances_char '>').bind _
  · split
    · exact .of_bind fun _ => .fail _
    · exact advances_attributeSpec

/-- Character data takes at least one character where no markup starts. -/
theorem length_of_textRun {c : Cursor} {r : Scanned c Token} (hc : c.rest ≠ [])
    (hm : "<".toList.isPrefixOf c.rest = false) (h : textRun c = .ok r) : r.next.rest.length < c.rest.length := by
  obtain ⟨r₁, h₁, r₂, -, -, hr⟩ := Scan.bind_eq_ok h
  rw [hr]
  exact Nat.lt_of_le_of_lt r₂.reaches.length_le (length_of_charsUntil hc hm h₁)

end Production

end MapMarkup.Xml
