/-!
# Positions in a text

A position knows how many bytes of UTF-8 lie before it and its line and column, both counted from 1. Lines end at the
line feed only, and columns count characters. Moving over a text is moving over its characters one by one, so moving
over two texts in a row is moving over their concatenation (`Position.after_append`), and the offset grows by the
size of the text (`Position.offset_after`).
-/

namespace MapMarkup

/-- The number of bytes of a text in UTF-8. -/
def utf8Size : List Char → Nat
  | [] => 0
  | c :: cs => c.utf8Size + utf8Size cs

@[simp] theorem utf8Size_nil : utf8Size [] = 0 := rfl

@[simp] theorem utf8Size_cons (c : Char) (cs : List Char) : utf8Size (c :: cs) = c.utf8Size + utf8Size cs := rfl

@[simp] theorem utf8Size_append (cs ds : List Char) : utf8Size (cs ++ ds) = utf8Size cs + utf8Size ds := by
  induction cs with
  | nil => simp
  | cons c cs ih => simp [ih, Nat.add_assoc]

/-- A half-open stretch of a document, by the byte offsets of its ends. -/
structure Span where
  low : Nat
  high : Nat
deriving DecidableEq, Repr

/-- A place between two characters of a document. -/
structure Position where
  /-- The number of bytes before the place. -/
  offset : Nat
  /-- One more than the number of line feeds before the place. -/
  line : Nat
  /-- One more than the number of characters before the place in its line. -/
  column : Nat
deriving DecidableEq, Repr

namespace Position

/-- The place before the first character. -/
def start : Position := ⟨0, 1, 1⟩

/-- The place after a character. -/
def advance (p : Position) (c : Char) : Position :=
  if c = '\n' then ⟨p.offset + c.utf8Size, p.line + 1, 1⟩
  else ⟨p.offset + c.utf8Size, p.line, p.column + 1⟩

/-- The place after a text. -/
def after (p : Position) (cs : List Char) : Position :=
  cs.foldl advance p

@[simp] theorem after_nil (p : Position) : p.after [] = p := rfl

@[simp] theorem after_cons (p : Position) (c : Char) (cs : List Char) :
    p.after (c :: cs) = (p.advance c).after cs := rfl

theorem after_append (p : Position) (cs ds : List Char) : p.after (cs ++ ds) = (p.after cs).after ds :=
  List.foldl_append

theorem offset_advance (p : Position) (c : Char) : (p.advance c).offset = p.offset + c.utf8Size := by
  unfold advance; split <;> rfl

theorem offset_after (p : Position) (cs : List Char) : (p.after cs).offset = p.offset + utf8Size cs := by
  induction cs generalizing p with
  | nil => simp
  | cons c cs ih => simp [ih, offset_advance, Nat.add_assoc]

theorem line_after (p : Position) (cs : List Char) : (p.after cs).line = p.line + cs.count '\n' := by
  induction cs generalizing p with
  | nil => simp
  | cons c cs ih =>
    rw [after_cons, ih, List.count_cons]
    unfold advance
    by_cases h : c = '\n'
    · simp only [h, ↓reduceIte, beq_self_eq_true]; omega
    · simp [h]

/-- Line and column in the form that messages use. -/
def lineColumn (p : Position) : String :=
  toString p.line ++ ":" ++ toString p.column

end Position

end MapMarkup
