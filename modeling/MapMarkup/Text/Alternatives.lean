/-!
# Lists of keywords in a message

A list of keywords is written `“a”, “b”, or “c”`: each in curly quotes, commas between all of them, and an “or”
before the last one of several.
-/

namespace MapMarkup.Text

/-- A keyword between curly quotes. -/
def curly (keyword : String) : String :=
  "“" ++ keyword ++ "”"

/-- The keywords after the first one, each with the comma that goes before it. -/
def furtherAlternatives : List String → String
  | [] => ""
  | [k] => ", or " ++ curly k
  | k :: ks => ", " ++ curly k ++ furtherAlternatives ks

/-- The keywords as alternatives to choose from. -/
def alternatives : List String → String
  | [] => ""
  | k :: ks => curly k ++ furtherAlternatives ks

end MapMarkup.Text
