import MapMarkup.Xml.Production

/-!
# The tokens of a document, one after the other

A lexer is a cursor together with the phase of the document that it is in: what may come next differs before the DTD,
inside it, before the root element, in the content of an element, inside a start tag and after the root element.
`Lexer.next?` gives the next token, or nothing when the text ends where a new token would start. A token that is not
well-formed ends the document.
-/

namespace MapMarkup.Xml

/-- How far a document has been read, with the number of open elements where there are any. -/
inductive Phase where
  | opening
  | beforeDoctype
  | inDoctype
  | beforeRoot
  | content (depth : Nat)
  /-- Inside a start tag, whose element is not among the open ones yet. -/
  | inTag (depth : Nat)
  | afterRoot
deriving DecidableEq, Repr

structure Lexer where
  phase : Phase
  cursor : Cursor
deriving DecidableEq, Repr

/-- What a lexer gives: an error, the end of the text, or a token. -/
abbrev Lexed : Type := Except Malformed (Option (Token × Lexer))

namespace Lexer

/-- The lexer before a document; a byte order mark at the start is passed over. -/
def start (source : List Char) : Lexer :=
  ⟨.opening, (Cursor.start source).advance (if source.head? = some '\uFEFF' then 1 else 0)⟩

/-- Whether the text ahead of the cursor starts with `s`. -/
def sees (c : Cursor) (s : String) : Bool :=
  s.toList.isPrefixOf c.rest

/-- The cursor after white space, if there is any. -/
def skipSpaces (c : Cursor) : Cursor :=
  c.advance (c.rest.takeWhile isSpace).length

/-- Scans a construct and gives its token and the phase after it. -/
def construct {α : Type} (kind : Construct) (s : Lexeme α) (token : α → Token × Phase) (c : Cursor) : Lexed :=
  match s c with
  | .error cause => .error (.invalid kind cause c.position)
  | .ok r => .ok (some ((token r.value).1, ⟨(token r.value).2, r.next⟩))

/-- Scans a construct that does not change the phase. -/
def within (phase : Phase) (kind : Construct) (s : Lexeme Token) : Cursor → Lexed :=
  construct kind s fun t => (t, phase)

/-- The phase when `depth` elements are open. -/
def phaseAt (depth : Nat) : Phase :=
  if depth = 0 then .afterRoot else .content depth

/-- The phase after a part of a start tag that stands inside `depth` open elements. -/
def phaseInTag (depth : Nat) : Token → Phase
  | .openEnd => .content (depth + 1)
  | .emptyEnd => phaseAt depth
  | _ => .inTag depth

/-- A comment or a processing instruction, where one stands; another `<?xml ` declaration is no token. -/
def aside? (phase : Phase) (c : Cursor) : Option Lexed :=
  if sees c "<!--" then some (within phase .comment Production.comment c)
  else if sees c "<?xml " then some (.error (.unknownToken c.position))
  else if sees c "<?" then some (within phase .instruction Production.instruction c)
  else none

/-- The next token between the DTD and the root element. -/
def beforeRoot (c : Cursor) : Lexed :=
  let c := skipSpaces c
  if c.rest = [] then .ok none
  else
    match aside? .beforeRoot c with
    | some lexed => lexed
    | none =>
      if sees c "<" && !sees c "<!" then construct .element Production.elementStart (fun t => (t, .inTag 0)) c
      else .error (.unknownToken c.position)

/-- The next token before the DTD, if there is one. -/
def beforeDoctype (c : Cursor) : Lexed :=
  let c := skipSpaces c
  if sees c "<!DOCTYPE" then
    construct .doctype Production.doctype (fun opened => (.aside, if opened then .inDoctype else .beforeRoot)) c
  else
    match aside? .beforeDoctype c with
    | some lexed => lexed
    | none => beforeRoot c

/-- The first token of a document: the XML declaration, or else what may follow it. -/
def opening (c : Cursor) : Lexed :=
  if sees c "<?xml " then construct .declaration Production.declaration (fun t => (t, .beforeDoctype)) c
  else beforeDoctype c

/-- The cursor after white space and the declarations of the DTD that give no token. Such a declaration ends at the
first `>`. -/
def skipDeclarations (c : Cursor) : Except Malformed Cursor :=
  let d := skipSpaces c
  if sees d "<!ELEMENT" || sees d "<!ATTLIST" || sees d "<!NOTATION" then
    match h : d.rest.dropWhile (· ≠ '>') with
    | [] => .error (.unknownToken d.position)
    | _ :: _ => skipDeclarations (d.advance ((d.rest.takeWhile (· ≠ '>')).length + 1))
  else .ok d
termination_by c.rest.length
decreasing_by
  have hd : (skipSpaces c).rest.length ≤ c.rest.length := by simp [skipSpaces]
  have hpos : 0 < (skipSpaces c).rest.length := by
    have := (List.dropWhile_suffix (· ≠ '>') : _ <:+ (skipSpaces c).rest).length_le
    rw [h] at this
    exact Nat.lt_of_lt_of_le (Nat.succ_pos _) this
  simp only [Cursor.rest_advance, List.length_drop]
  omega

/-- The next token inside the DTD, where no declaration stands that gives none. -/
def inDoctypeAt (c : Cursor) : Lexed :=
  if c.rest = [] then .ok none
  else if sees c "<!ENTITY" then within .inDoctype .entity Production.entityDeclaration c
  else if sees c "]" then construct .doctype Production.doctypeEnd (fun t => (t, .beforeRoot)) c
  else
    match aside? .inDoctype c with
    | some lexed => lexed
    | none => .error (.unknownToken c.position)

/-- The next token inside the DTD. -/
def inDoctype (c : Cursor) : Lexed :=
  match skipDeclarations c with
  | .error e => .error e
  | .ok c => inDoctypeAt c

/-- The next token in the content of an element. -/
def content (depth : Nat) (c : Cursor) : Lexed :=
  if c.rest = [] then .ok none
  else if sees c "<" then
    match aside? (.content depth) c with
    | some lexed => lexed
    | none =>
      if sees c "<![CDATA[" then within (.content depth) .cdata Production.cdataSection c
      else if sees c "<!" || c.rest = ['<'] then .error (.unknownToken c.position)
      else if sees c "</" then construct .element Production.closeTag (fun t => (t, phaseAt (depth - 1))) c
      else construct .element Production.elementStart (fun t => (t, .inTag depth)) c
  else within (.content depth) .characterData Production.textRun c

/-- The next token inside a start tag. -/
def inTag (depth : Nat) (c : Cursor) : Lexed :=
  if c.rest = [] then .ok none
  else construct .attribute Production.inTag (fun t => (t, phaseInTag depth t)) c

/-- The next token after the root element. -/
def afterRoot (c : Cursor) : Lexed :=
  let c := skipSpaces c
  if c.rest = [] then .ok none
  else
    match aside? .afterRoot c with
    | some lexed => lexed
    | none => .error (.unknownToken c.position)

/-- The next token and the lexer after it, or nothing at the end of the text. -/
def next? (l : Lexer) : Lexed :=
  match l.phase with
  | .opening => opening l.cursor
  | .beforeDoctype => beforeDoctype l.cursor
  | .inDoctype => inDoctype l.cursor
  | .beforeRoot => beforeRoot l.cursor
  | .content depth => content depth l.cursor
  | .inTag depth => inTag depth l.cursor
  | .afterRoot => afterRoot l.cursor

end Lexer

end MapMarkup.Xml
