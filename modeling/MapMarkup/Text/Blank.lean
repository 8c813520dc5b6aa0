/-!
# White space of attribute values

White space is the set of five ASCII characters that HTML names, and no other character of Unicode: a no-break
space, for instance, belongs to the text around it.

* `trim` drops white space at both ends and nothing else.
* `words` gives the maximal runs without white space, in order.
-/

namespace MapMarkup.Text

/-- Space, tab, line feed, form feed and carriage return are white space. -/
def isBlank (c : Char) : Bool :=
  c = ' ' || c = '\t' || c = '\n' || c = '\x0c' || c = '\r'

/-- The text between the first and the last character that is not white space. -/
def trimChars (cs : List Char) : List Char :=
  ((cs.dropWhile isBlank).reverse.dropWhile isBlank).reverse

/-- The text without the white space at its ends. -/
def trim (s : String) : String :=
  String.ofList (trimChars s.toList)

/-- The stretches between the characters that satisfy `p`; there is one more of them than of those characters. -/
def splitWhere (p : Char → Bool) : List Char → List (List Char)
  | [] => [[]]
  | c :: cs =>
    match p c, splitWhere p cs with
    | true, ts => [] :: ts
    | false, [] => [[c]]
    | false, t :: ts => (c :: t) :: ts

/-- The maximal runs without white space, in order. -/
def wordChars (cs : List Char) : List (List Char) :=
  (splitWhere isBlank cs).filter (· ≠ [])

/-- The space-separated tokens of an attribute value; separators at the ends and in a row make no empty token. -/
def words (s : String) : List String :=
  (wordChars s.toList).map String.ofList

end MapMarkup.Text
