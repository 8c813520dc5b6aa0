/-!
# Keywords without regard to ASCII case

Keywords are compared after folding the letters `A` to `Z` only; every other character, accented letters included,
must be the same on both sides.
-/

namespace MapMarkup.Text

/-- The two texts are equal once `A` to `Z` are folded to lower case. -/
def sameIgnoringCase (s t : String) : Bool :=
  s.toLower == t.toLower

end MapMarkup.Text
