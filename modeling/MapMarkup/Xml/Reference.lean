import MapMarkup.Xml.ReadError

/-!
# References in text

A text with references is cut into pieces: a literal run in front of every ampersand (it may be empty), what stands
between an ampersand and the next semicolon, and the literal run at the end. An ampersand without a semicolon after it
is unclosed, but an ampersand that ends the text is passed over.

A reference that starts with `#` stands for the character with the number after it, in base 16 after an `x` and in
base 10 otherwise; the number may have a plus sign. Every other reference stands for the entity of that name.
-/

namespace MapMarkup.Xml

/-- A part of a text. -/
inductive Piece where
  | literal (chars : List Char)
  /-- What stands between an ampersand and a semicolon. -/
  | reference (written : Passage)
  /-- The ampersand of a reference without a semicolon. -/
  | unclosed (ampersand : Span)
deriving DecidableEq, Repr

/-- The pieces of a text that stands at the given offset. -/
def pieces (offset : Nat) (cs : List Char) : List Piece :=
  if cs = [] then []
  else
    let run := cs.takeWhile (· ≠ '&')
    let p := offset + utf8Size run + 1
    match _h : cs.dropWhile (· ≠ '&') with
    | [] => [.literal run]
    | _ :: [] => [.literal run]
    | _ :: after =>
      let written := after.takeWhile (· ≠ ';')
      match _h' : after.dropWhile (· ≠ ';') with
      | [] => [.literal run, .unclosed ⟨p - 1, p⟩]
      | _ :: rest => .literal run :: .reference ⟨p, written⟩ :: pieces (p + utf8Size written + 1) rest
termination_by cs.length
decreasing_by
  have h₁ := (List.dropWhile_suffix (· ≠ '&') : _ <:+ cs).length_le
  have h₂ := (List.dropWhile_suffix (· ≠ ';') : _ <:+ after).length_le
  rw [_h] at h₁
  rw [_h'] at h₂
  simp only [List.length_cons] at h₁ h₂
  omega

/-- What a reference stands for. -/
inductive Referent where
  | entity
  | character (c : Char)
  | invalid
deriving DecidableEq, Repr

/-- The value of a digit in a base of at most 16. -/
def digitValue? (base : Nat) (c : Char) : Option Nat :=
  let value :=
    if c.isDigit then c.toNat - '0'.toNat
    else if 'a' ≤ c && c ≤ 'f' then c.toNat - 'a'.toNat + 10
    else if 'A' ≤ c && c ≤ 'F' then c.toNat - 'A'.toNat + 10
    else base
  if value < base then some value else none

/-- The number that a text writes in the given base: at least one digit, perhaps after a plus sign. -/
def number? (base : Nat) (cs : List Char) : Option Nat :=
  let digits := match cs with
    | '+' :: ds => ds
    | ds => ds
  if digits = [] then none
  else (digits.mapM (digitValue? base)).map (·.foldl (fun n d => base * n + d) 0)

/-- The character with the given code point. -/
def charOfNumber? (n : Nat) : Option Char :=
  if h : n.isValidChar then some (Char.ofNatAux n h) else none

/-- What stands for the text between an ampersand and a semicolon. -/
def referent : List Char → Referent
  | '#' :: number =>
    let code := match number with
      | 'x' :: hex => number? 16 hex
      | decimal => number? 10 decimal
    match code.bind charOfNumber? with
    | some c => .character c
    | none => .invalid
  | _ => .entity

end MapMarkup.Xml
