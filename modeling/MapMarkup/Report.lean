import MapMarkup.Diagnostic
import MapMarkup.Source.Lines
import MapMarkup.Xml.ReadError

/-!
# Reports

A report shows a message at stretches of the document. A diagnostic has at most one stretch: it ends at the locator,
which is just past what the diagnostic is about, and starts at the start hint, or one character before its end if there
is no hint. A hint that is not in the document or lies behind the locator makes the stretch empty. A locator on a line
that the document does not have gives no stretch. The columns of a hint are taken to have a sum of 32 bits.

An error of reading has the stretch of the passage that it is about. Malformed markup has an empty stretch at its
position; a position behind the characters of its line is shown at the start of the line.
-/

namespace MapMarkup

/-- A stretch of a document with what is said about it. -/
structure Mark where
  span : Span
  /-- Whether this is what the message is about. -/
  primary : Bool := true
  label : Option String := none
deriving DecidableEq, Repr

/-- A message as it is shown to users. -/
structure Report where
  level : Level
  message : String
  marks : List Mark
deriving DecidableEq, Repr

namespace Diagnostic

/-- The offset at which the stretch of a diagnostic starts, if it ends at the given offset. -/
def startOffset (source : List Char) (d : Diagnostic) (high : Nat) : Nat :=
  match d.start with
  | none => high - sizeBefore source high
  | some hint =>
    match offsetAt source hint.line (hint.column + hint.columnOffset) with
    | some low => if low ≤ high then low else high
    | none => high

/-- The stretch of the document that a diagnostic is about. -/
def span? (source : List Char) (d : Diagnostic) : Option Span :=
  (offsetAt source d.locator.line d.locator.column).map fun high => ⟨d.startOffset source high, high⟩

/-- The report of a diagnostic. -/
def report (source : List Char) (d : Diagnostic) : Report :=
  ⟨d.level, d.message, (d.span? source).toList.map fun span => { span }⟩

end Diagnostic

namespace Xml

/-- The place at which malformed markup is shown. -/
def Malformed.shownAt (source : List Char) (e : Malformed) : Nat :=
  match (linesOf source)[e.position.line - 1]? with
  | none => 0
  | some l =>
    let column := e.position.column
    l.start + if column - 1 < l.visible.length then l.bytesBefore column else 0

namespace ReadError

/-- The error in words. -/
def message : ReadError → String
  | .malformed e => e.message
  | .undefinedQualifier q => "The prefix " ++ Text.quoted q.chars ++ " is not defined"
  | .undefinedEntity name => "The entity &" ++ .ofList name.chars ++ "; is not defined"
  | .brokenReference _ => "Invalid or unclosed entity reference"
  | .externalEntity name => "External entity " ++ Text.quoted name.chars ++ " is not supported"
  | .mismatchedEndTag _ _ => "End tag does not match the open element"
  | .unexpectedEndTag _ => "End tag with no open element"
  | .unclosedElement _ => "Element is not closed before the end of the document"

/-- The stretches of the document that the error is about. -/
def marks (source : List Char) : ReadError → List Mark
  | .malformed e => [{ span := ⟨e.shownAt source, e.shownAt source⟩ }]
  | .undefinedQualifier q =>
    [{ span := q.span, label := "Add an xmlns:" ++ .ofList q.chars ++ "=\"..\" attribute to define this prefix" }]
  | .undefinedEntity name => [{ span := name.span, label := "undefined" }]
  | .brokenReference span => [{ span }]
  | .externalEntity name => [{ span := name.span }]
  | .mismatchedEndTag opened closing =>
    [{ span := closing, label := "this end tag" },
      { span := opened, primary := false, label := "closes this element" }]
  | .unexpectedEndTag closing => [{ span := closing, label := "Remove this" }]
  | .unclosedElement opened => [{ span := opened }]

/-- The report of an error of reading. -/
def report (source : List Char) (e : ReadError) : Report :=
  ⟨.error, e.message, e.marks source⟩

end ReadError

end Xml

end MapMarkup
