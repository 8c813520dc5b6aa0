/-!
# Decimal numbers

A decimal number has an optional sign, then either a word for infinity or for “not a number” in any ASCII case, or
ASCII digits with at most one point (at least one digit on either side of it) and an optional exponent. A finite
number is kept exactly, as a whole number and a power of ten.

`Decimal.exceedsOne` compares the double precision value nearest to the number with 1: the first double above 1 is
`1 + 2⁻⁵²`, and a number half-way to it goes to 1, so the value exceeds 1 exactly when the number exceeds `1 + 2⁻⁵³`.
-/

namespace MapMarkup.Text

/-- A number as it is written in decimal notation. -/
inductive Decimal where
  | notANumber
  | infinite (negative : Bool)
  /-- The number `digits * 10 ^ exponent`, or its negation. -/
  | finite (negative : Bool) (digits : Nat) (exponent : Int)
deriving DecidableEq, Repr

namespace Decimal

/-- The value of a run of ASCII digits. -/
def digitsValue (ds : List Char) : Nat :=
  ds.foldl (fun n d => 10 * n + (d.toNat - '0'.toNat)) 0

/-- A sign in front of the text: whether it is a minus, and the text after it. -/
def readSign : List Char → Bool × List Char
  | '-' :: cs => (true, cs)
  | '+' :: cs => (false, cs)
  | cs => (false, cs)

/-- The exponent at the end of a number: nothing, or `e` with an optional sign and at least one digit. -/
def readExponent : List Char → Option Int
  | [] => some 0
  | c :: cs =>
    if c = 'e' || c = 'E' then
      let (negative, ds) := readSign cs
      if ds = [] || ds.any (fun d => !d.isDigit) then none
      else some (if negative then -digitsValue ds else digitsValue ds)
    else none

/-- The number in front of an exponent: its digits before the point, those after it, and the rest of the text. -/
def readDigits (cs : List Char) : List Char × List Char × List Char :=
  let whole := cs.takeWhile Char.isDigit
  match cs.dropWhile Char.isDigit with
  | '.' :: rest => (whole, rest.takeWhile Char.isDigit, rest.dropWhile Char.isDigit)
  | rest => (whole, [], rest)

/-- The number that a text is, if it is one. -/
def ofChars? (cs : List Char) : Option Decimal :=
  let (negative, cs) := readSign cs
  let word := String.ofList (cs.map Char.toLower)
  if word = "inf" || word = "infinity" then some (infinite negative)
  else if word = "nan" then some notANumber
  else
    let (whole, fraction, rest) := readDigits cs
    if whole = [] && fraction = [] then none
    else (readExponent rest).map fun e => finite negative (digitsValue (whole ++ fraction)) (e - fraction.length)

/-- The number that a text is, if it is one. -/
def ofString? (s : String) : Option Decimal :=
  ofChars? s.toList

/-- A power of ten. -/
def tenTo (n : Nat) : Nat := Nat.pow 10 n

/-- Whether the double precision value of the number is greater than 1. A negative exponent beyond the number of
binary digits makes the number smaller than 1, whatever its digits are. -/
def exceedsOne : Decimal → Bool
  | notANumber => false
  | infinite negative => !negative
  | finite true _ _ => false
  | finite false digits (.ofNat e) => digits * tenTo (min e 1) > 1
  | finite false digits (.negSucc e) =>
    e + 1 ≤ digits.log2 && digits * Nat.pow 2 53 > (Nat.pow 2 53 + 1) * tenTo (e + 1)

end Decimal

end MapMarkup.Text
