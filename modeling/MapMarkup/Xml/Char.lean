/-!
# Character classes of XML

White space is space, tab, carriage return and line feed. Names start with a letter, a colon, an underscore or one of
the listed ranges, and go on with these, with digits, hyphens, dots and some combining characters. Control characters
other than white space and the two noncharacters `U+FFFE` and `U+FFFF` must not stand in a document.
-/

namespace MapMarkup.Xml

/-- White space between the parts of markup. -/
def isSpace (c : Char) : Bool :=
  c = ' ' || c = '\t' || c = '\n' || c = '\r'

/-- Whether a code point lies in one of the ranges, ends included. -/
def inRanges (ranges : List (Nat × Nat)) (n : Nat) : Bool :=
  ranges.any fun (low, high) => low ≤ n && n ≤ high

/-- The code points above ASCII with which a name may start. -/
def nameStartRanges : List (Nat × Nat) := [
  (0xC0, 0xD6), (0xD8, 0xF6), (0xF8, 0x2FF), (0x370, 0x37D), (0x37F, 0x1FFF), (0x200C, 0x200D), (0x2070, 0x218F),
  (0x2C00, 0x2FEF), (0x3001, 0xD7FF), (0xF900, 0xFDCF), (0xFDF0, 0xFFFD), (0x10000, 0xEFFFF)]

/-- The code points above ASCII that a name may hold after its first character only. -/
def nameRestRanges : List (Nat × Nat) := [(0xB7, 0xB7), (0x300, 0x36F), (0x203F, 0x2040)]

/-- The characters with which a name may start. -/
def isNameStart (c : Char) : Bool :=
  c.isAlpha || c = ':' || c = '_' || inRanges nameStartRanges c.toNat

/-- The characters that a name may hold. -/
def isNameChar (c : Char) : Bool :=
  isNameStart c || c.isDigit || c = '-' || c = '.' || inRanges nameRestRanges c.toNat

/-- The characters that may stand in a document. -/
def isXmlChar (c : Char) : Bool :=
  if c.toNat < 0x20 then isSpace c else c.toNat ≠ 0xFFFE && c.toNat ≠ 0xFFFF

/-- The first byte of the character in UTF-8, as the character with that code point. -/
def leadByte (c : Char) : Char :=
  let n := c.toNat
  if n < 0x80 then c
  else if n < 0x800 then Char.ofNat (0xC0 + n / 0x40)
  else if n < 0x10000 then Char.ofNat (0xE0 + n / 0x1000)
  else Char.ofNat (0xF0 + n / 0x40000)

end MapMarkup.Xml
