import MapMarkup.Text.Quoted.Table

/-!
# Quoted text

Text is quoted between double quotes and a character between single ones. A backslash stands before the quote in use
and before a backslash; tab, line feed, carriage return and the null character have a letter or digit after a
backslash; every other character without a graphic form is written as its code point in hexadecimal.
-/

namespace MapMarkup.Text

/-- The digits of a number in base 16, in lower case. -/
def hexadecimal (n : Nat) : List Char :=
  Nat.toDigits 16 n

/-- A character as it stands between the given quotes. -/
def quoteChar (mark c : Char) : List Char :=
  if c = '\x00' then ['\\', '0']
  else if c = '\t' then ['\\', 't']
  else if c = '\n' then ['\\', 'n']
  else if c = '\r' then ['\\', 'r']
  else if c = '\\' || c = mark then ['\\', c]
  else if isUnprinted c then ['\\', 'u', '\x7b'] ++ hexadecimal c.toNat ++ ['\x7d']
  else [c]

/-- The text between double quotes. -/
def quoted (cs : List Char) : String :=
  String.ofList (['"'] ++ cs.flatMap (quoteChar '"') ++ ['"'])

/-- The character between single quotes. -/
def quotedChar (c : Char) : String :=
  String.ofList (['\''] ++ quoteChar '\'' c ++ ['\''])

end MapMarkup.Text
