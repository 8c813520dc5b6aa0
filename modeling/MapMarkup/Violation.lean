import MapMarkup.Diagnostic
import MapMarkup.Text.Alternatives

/-!
# Violations of the rules

Each way in which a document can break a rule of the vocabulary, with what its message has to name. The locator of a
violation is kept beside it.
-/

namespace MapMarkup

inductive Violation where
  | prohibitedAncestor (element ancestor : String)
  | inputOutsideExtent
  /-- An attribute that only inputs of the given types may have. -/
  | attributeOfOtherInputs (name : String) (types : List String)
  /-- An ARIA state that an attribute of the same name implies. -/
  | impliedState (name : String)
  | redundantInputRole (role inputType : String)
  | redundantElementRole (role element : String)
  | axisMissing
  | axisOfOtherUnits (axis units : String) (axes : List String)
  | relOfTileMatrix
  | shardWithoutList
  | shardWithValue
  | secondSelectedOption
  | secondQueryLink
  | trefOutsideExtent
  | trefWithHref
  | hrefInExtent
  | projectionWithoutAlternate
  | linkInBody
  | requiredSelectWithoutOption
  | requiredSelectWithoutPlaceholder
  | extentWithoutZoom
  | extentWithoutLocation
  | extentWithoutAxisPair
  | extentActionWithTemplates
  /-- A variable of a template that no input of its extent has as its name. -/
  | unboundVariable (name : String)
  | activeDescendantElsewhere
  | severalSelfStyles
  | labelForNoControl
  | formOfNoForm
  | listOfNoDatalist
deriving DecidableEq, Repr

namespace Violation

/-- Most violations are errors. -/
def level : Violation → Level
  | impliedState _ | redundantInputRole _ _ | redundantElementRole _ _ | secondQueryLink
  | extentActionWithTemplates | activeDescendantElsewhere => .warning
  | _ => .error

/-- What a `select` must be like for the rules on its options to apply. -/
def requiredSelect : String :=
  "“select” element with a “required” attribute, and without a “multiple” attribute, and without a “size” attribute " ++
      "whose value is greater than “1”, must have "

open Text (curly alternatives)

/-- The violation in words. -/
def message : Violation → String
  | prohibitedAncestor element ancestor =>
    "The element " ++ curly element ++ " must not appear as a descendant of the " ++ curly ancestor ++ " element."
  | inputOutsideExtent => "The “input” element must have a “extent” ancestor."
  | attributeOfOtherInputs name types =>
    "Attribute " ++ curly name ++ " is only allowed when the input type is " ++ alternatives types ++ "."
  | impliedState name =>
    "Attribute " ++ curly ("aria-" ++ name) ++ " is unnecessary for elements that have attribute " ++ curly name ++ "."
  | redundantInputRole role inputType =>
    "The " ++ curly role ++ " role is unnecessary for element “input” whose type is " ++ curly inputType ++ "."
  | redundantElementRole role element =>
    "The " ++ curly role ++ " role is unnecessary for element " ++ curly element ++ "."
  | axisMissing => "The “input” element with attribute “type” equals “location” must have an “axis” attribute."
  | axisOfOtherUnits axis units axes =>
    "“axis” attribute value " ++ curly axis ++ " is not allowed when the input “units” value is " ++ curly units ++
      " and attribute “position” is not specified. Value must be one of: " ++ alternatives axes ++ "."
  | relOfTileMatrix => "The “input” element attribute “rel” must equal “map”, or not exist at all."
  | shardWithoutList => "An “input” element with a “shard” attribute must have “list” attribute."
  | shardWithValue => "An “input” element with a “shard” attribute must not have a “value” attribute."
  | secondSelectedOption =>
    "The “select” element cannot have more than one selected “option” descendant unless the “multiple” attribute " ++
      "is specified."
  | secondQueryLink =>
    "The “extent” element should contain at most one “link” element with a “rel” attribute containing the “query” " ++
      "link relation."
  | trefOutsideExtent =>
    "The “tref” attribute must only occur on a “link” element within an “extent” element."
  | trefWithHref => "A “link” element may have a “tref” attribute or an “href” attribute, but not both."
  | hrefInExtent => "A “link” element in the “extent” element must not have an “href” attribute."
  | projectionWithoutAlternate =>
    "A “link” element with a “projection” attribute must have a “rel” attribute value of “alternate”."
  | linkInBody =>
    "A “link” element must not appear as a descendant of a “body” element unless the “link” element has an " ++
      "“itemprop” attribute or has a “rel” attribute whose value contains “next”, or “stylesheet”."
  | requiredSelectWithoutOption => "A " ++ requiredSelect ++ "a child “option” element."
  | requiredSelectWithoutPlaceholder =>
    "The first child “option” element of a " ++ requiredSelect ++ "either an empty “value” attribute, or must have " ++
      "no text content. Consider either adding a placeholder option label, or adding a “size” attribute with a value " ++
      "equal to the number of “option” elements."
  | extentWithoutZoom =>
    "An “extent” element must have a child “input” element with “type” attribute value of “zoom”."
  | extentWithoutLocation =>
    "An “extent” element must have child “input” elements with “type” attribute value of “location”."
  | extentWithoutAxisPair =>
    "An “extent” element must contain complementary pairs of “input” elements whose “type” attribute equals " ++
      "“location” and which share a “units” attribute value (coordinate system)."
  | extentActionWithTemplates =>
    "An “extent” element that has an “action” attribute should not have child “link” element(s) with “rel” " ++
      "attribute values including “tile”, “image” or “features”."
  | unboundVariable name =>
    "“link” element “tref” attribute template variables must each be associated to a unique “input” element “name” " ++
      "attribute. \x7b" ++ name ++ "\x7d has no associated “input” element."
  | activeDescendantElsewhere =>
    "Attribute “aria-activedescendant” value should either refer to a descendant element, or should be accompanied " ++
      "by attribute “aria-owns”."
  | severalSelfStyles =>
    "A document may contain only one “link” element with a “rel” attribute value of “self style” or “style self”."
  | labelForNoControl =>
    "The value of the “for” attribute of the “label” element must be the ID of a non-hidden form control."
  | formOfNoForm => "The “form” attribute must refer to a form element."
  | listOfNoDatalist =>
    "The “list” attribute of the “input” element must refer to a “datalist” element."

end Violation

end MapMarkup
