import MapMarkup.Xml.Lexer.Progress
import MapMarkup.Xml.Taking

/-!
# Reading a document

A reader turns a document into events, one token at a time. It keeps the lexer, the elements that are open, with the
one whose start tag is being read, and the entities that are declared. An element starts when its start tag is
complete, and its locator, like that of an end, is the place just past the tag.

`Reader.advance` is one call: the events of the next token, and whether there was one. `Reader.steps` are the calls until
the reader has finished.
-/

namespace MapMarkup.Xml

/-- How far the reading of a document has come. -/
inductive Stage where
  | fresh
  | reading
  | finished
deriving DecidableEq, Repr

structure Reader where
  lexer : Lexer
  /-- The name of the document in its locators. -/
  systemId : Option String
  opened : OpenElements
  entities : Entities
  stage : Stage
deriving DecidableEq, Repr

/-- How a call of a reader went. -/
inductive Outcome where
  /-- A token was read. -/
  | token
  | failed (error : ReadError)
  /-- There is nothing left to read. -/
  | finished
deriving DecidableEq, Repr

namespace Reader

/-- The reader before a document. -/
def start (source : List Char) (systemId : Option String) : Reader :=
  ⟨.start source, systemId, [], .predefined, .fresh⟩

/-- The locator of the place that the reader has come to. -/
def locator (r : Reader) : Locator :=
  ⟨r.lexer.cursor.position.line, r.lexer.cursor.position.column, r.systemId, none⟩

/-- What a call says before the events of its token. -/
def opening (r : Reader) : List Event :=
  if r.stage = .fresh then [.startDocument] else []

/-- One call: the reader after it, the events of the next token, and how the call went. The document starts with the
first call; it ends when no token is left and no element is open. A token that fails leaves behind whatever it has done
by then, and the lexer stays in front of it. -/
def advance (r : Reader) : Reader × List Event × Outcome :=
  let finished := { r with stage := .finished }
  if r.stage = .finished then (r, [], .finished)
  else
    match r.lexer.next? with
    | .error e => (finished, r.opening, .failed (.malformed e))
    | .ok none =>
      match r.opened with
      | [] => (finished, r.opening ++ [.endDocument], .finished)
      | e :: _ => (finished, r.opening, .failed (.unclosedElement e.span))
    | .ok (some (t, lexer)) =>
      match Taking.token { r with lexer }.locator t ⟨r.opened, r.entities, r.opening⟩ with
      | .ok _ p => ({ r with lexer, opened := p.opened, entities := p.entities, stage := .reading }, p.said, .token)
      | .error e p => ({ finished with opened := p.opened, entities := p.entities }, p.said, .failed e)

/-- A call that reads a token leaves less of the document than there was. -/
theorem length_of_advance {r r' : Reader} {events : List Event} (h : r.advance = (r', events, .token)) :
    r'.lexer.cursor.rest.length < r.lexer.cursor.rest.length := by
  unfold advance at h
  dsimp only at h
  split at h
  · simp at h
  · split at h
    · simp at h
    · split at h <;> simp at h
    · rename_i t lexer hl
      split at h
      · obtain ⟨rfl, -⟩ := Prod.mk.inj h
        exact Lexer.length_of_next? hl
      · simp at h

/-- The calls until the reader has finished, each with the events that it gives. -/
def steps (r : Reader) : List (List Event × Outcome) :=
  match _h : r.advance with
  | (r', events, .token) => (events, .token) :: r'.steps
  | (_, events, outcome) => [(events, outcome)]
termination_by r.lexer.cursor.rest.length
decreasing_by exact length_of_advance _h

/-- Everything that the rest of the document says up to its end or its first error. -/
def events (r : Reader) : List Event :=
  r.steps.flatMap (·.1)

/-- The error at which the reading of the rest of the document stops, if there is one. -/
def error? (r : Reader) : Option ReadError :=
  r.steps.findSome? fun (_, outcome) =>
    match outcome with
    | .failed e => some e
    | _ => none

end Reader

end MapMarkup.Xml
