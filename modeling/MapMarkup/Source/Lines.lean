import MapMarkup.Source.Position

/-!
# Lines of a document

A document is cut into lines at its line feeds. The visible text of a line leaves out the carriage returns at its
end. A line and a column name the place before a character of the visible text, or its end when the line has fewer
characters.
-/

namespace MapMarkup

/-- One line of a document. -/
structure Line where
  /-- The offset of the first byte of the line. -/
  start : Nat
  /-- The characters of the line without the line feed that ends it. -/
  content : List Char
deriving DecidableEq, Repr

/-- The lines of a text that starts at the given offset. -/
def linesFrom (start : Nat) : List Char → List Line
  | [] => [⟨start, []⟩]
  | c :: cs =>
    match c == '\n', linesFrom (start + c.utf8Size) cs with
    | false, l :: ls => ⟨start, c :: l.content⟩ :: ls
    | _, ls => ⟨start, []⟩ :: ls

/-- The lines of a document. -/
def linesOf (source : List Char) : List Line :=
  linesFrom 0 source

namespace Line

/-- The line without the line ends behind it. -/
def visible (l : Line) : List Char :=
  (l.content.reverse.dropWhile fun c => c = '\r' || c = '\n').reverse

/-- The number of bytes from the start of the line to a column, or to the end of the visible text. -/
def bytesBefore (l : Line) (column : Nat) : Nat :=
  utf8Size (l.visible.take (column - 1))

end Line

/-- The offset of the place at a line and a column, if the document has such a line. -/
def offsetAt (source : List Char) (line column : Nat) : Option Nat :=
  if line = 0 then none
  else (linesOf source)[line - 1]?.map fun l => l.start + l.bytesBefore column

/-- The size of the character that ends at an offset of the text; 0 at its start. -/
def sizeBefore : List Char → Nat → Nat
  | [], _ => 0
  | c :: cs, offset =>
    if offset = 0 then 0
    else if offset ≤ c.utf8Size then c.utf8Size
    else sizeBefore cs (offset - c.utf8Size)

end MapMarkup
