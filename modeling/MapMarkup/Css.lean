import MapMarkup.Diagnostic

/-!
# Problems in stylesheets

Stylesheets are not read here: the contents of `style` elements and the values of `style` attributes go to a CSS
parser, and the problems that it finds come back with positions in the text that it was given. Lines and columns are
counted from 1, and line 0 means that the place is not known.

`placeProblems` turns such positions into positions of the document. The text of a `style` element starts at the
place just past its start tag, so the first line of the document's part is that of the locator, and columns of the
first line are shifted by the column of the locator, unless a line feed at the start of the text was left out. All sums
of lines are taken to have 32 bits.
-/

namespace MapMarkup

/-- What is wrong with a stylesheet. -/
inductive CssError where
  /-- An error of the CSS grammar. -/
  | grammar (type property message : Option String)
  /-- Any other error; only its message is known. -/
  | other (message : String)
deriving DecidableEq, Repr

/-- One problem in a stylesheet. -/
structure CssProblem where
  beginLine : Nat
  beginColumn : Nat
  endLine : Nat
  endColumn : Nat
  error : CssError
deriving DecidableEq, Repr

namespace CssProblem

/-- The type of the error for a text that makes no sense at all. -/
def unrecognized : String := "generator.unrecognize"

/-- The CSS property that the problem is about. -/
def property (p : CssProblem) : Option String :=
  match p.error with
  | .grammar _ property _ => property
  | .other _ => none

/-- The message to show, if there is anything to say. -/
def message (p : CssProblem) : Option String :=
  match p.error with
  | .grammar type property message =>
    let text := message.getD (if type = some unrecognized then "Parse Error" else "")
    if text = "" then none
    else
      match property with
      | some property => some ("“" ++ property ++ "”: " ++ text ++ ".")
      | none => some (text ++ ".")
  | .other message => if message = "" then none else some message

end CssProblem

/-- A reader of stylesheets, which may have effects of its own. -/
structure CssParser (m : Type → Type) where
  /-- Reads the contents of a `style` element. -/
  stylesheet : String → m (List CssProblem)
  /-- Reads the value of a `style` attribute on the given line of the document. -/
  styleAttribute : String → Nat → m (List CssProblem)

/-- The reader that finds nothing wrong. -/
def CssParser.none {m : Type → Type} [Pure m] : CssParser m :=
  ⟨fun _ => pure [], fun _ _ => pure []⟩

/-- A problem of a stylesheet as an error at a place of the document. -/
structure PlacedProblem where
  message : String
  locator : Locator
  start : StartHint
deriving DecidableEq, Repr

/-- The place in the document of a problem in a `style` element, if its place is known and it has a message. -/
def placeProblem (origin : Locator) (lineOffset : Nat) (heading : String) (p : CssProblem) : Option PlacedProblem :=
  if p.beginLine + lineOffset = 0 then none
  else
    p.message.map fun message => {
      message := heading ++ message
      locator := { origin with line := origin.line + (p.endLine + lineOffset) - 1, column := p.endColumn }
      start := {
        line := origin.line + (p.beginLine + lineOffset) - 1
        column := p.beginColumn
        columnOffset := if p.beginLine = 1 && lineOffset = 0 then origin.column else 0 } }

/-- The places in the document of the problems in a `style` element whose start tag ends at `origin`. The line offset
is 1 if a line feed at the start of its text was left out, and 0 otherwise; the heading goes before each message. -/
def placeProblems (origin : Locator) (lineOffset : Nat) (heading : String) (problems : List CssProblem) :
    List PlacedProblem :=
  problems.filterMap (placeProblem origin lineOffset heading)

end MapMarkup
