import MapMarkup.Event
import MapMarkup.Rules.Notice
import MapMarkup.Text.AsciiCase
import MapMarkup.Text.Blank

/-!
# Start tags and their attributes

A start tag of the vocabulary, with the readings of its attributes that the rules share, and the rules on single
attributes: stylesheets in `style`, attributes that an input type must not have, ARIA states that are implied, and roles
that are. All readings are of attributes in no namespace, IDs apart. Of several attributes of one name the first one
counts where a rule asks for it (`get?`), and the last one where the scan of the attributes picks it up (`last?`).
-/

namespace MapMarkup.Rules

open Vocabulary

structure StartTag where
  locator : Locator
  name : String
  attributes : Attributes
deriving DecidableEq, Repr

namespace StartTag

/-- The value of the first attribute of the given name. -/
def get? (t : StartTag) (key : String) : Option String := t.attributes.get? "" key

/-- Whether there is an attribute of the given name. -/
def has (t : StartTag) (key : String) : Bool := t.attributes.has "" key

/-- The value of the last attribute of the given name. -/
def last? (t : StartTag) (key : String) : Option String := t.attributes.last? key

/-- The type of an `input` in lower case; it is `text` when none is given. -/
def inputType? (t : StartTag) : Option String :=
  if t.name = "input" then some (((t.get? "type").map String.toLower).getD "text") else none

/-- Whether the tag is that of an `input` of the given type. -/
def isInput (t : StartTag) (inputType : String) : Bool :=
  t.inputType? = some inputType

/-- The link relations in lower case. -/
def relations (t : StartTag) : List String :=
  match t.get? "rel" with
  | some rel => Text.words rel.toLower
  | none => []

/-- Whether the tag has a link relation. -/
def hasRelation (t : StartTag) (relation : String) : Bool :=
  t.relations.contains relation

/-- The keywords in the order in which messages list them. -/
def sorted (keywords : List String) : List String :=
  keywords.mergeSort fun a b => a ≤ b

/-- The input types that the tag would have to have because of an attribute, if its own type is none of them. -/
def inputTypeNotices (t : StartTag) (key : String) (types : List String) : List Notice :=
  if types.any t.isInput then []
  else [.violation (.attributeOfOtherInputs key (sorted types)) t.locator]

/-- The notices on an attribute that is in no table of input types. -/
def stateNotices (t : StartTag) (key : String) : List Notice :=
  if attributesWithState.contains key && t.get? ("aria-" ++ key) = some "true" then
    [.violation (.impliedState key) t.locator]
  else []

/-- The notices on one attribute. -/
def attributeNotices (t : StartTag) (a : Attribute) : List Notice :=
  if a.uri ≠ "" then []
  else if a.name = "style" then [.styleAttribute a.value t.locator]
  else if isOwnAttribute t.name a.name then []
  else
    match if t.name = "input" then allowedInputTypes? a.name else none with
    | some types => t.inputTypeNotices a.name types
    | none => t.stateNotices a.name

/-- The notices on a role that the element has anyway. -/
def roleNotices (t : StartTag) : List Notice :=
  match t.last? "role" with
  | none => []
  | some role =>
    let role := Text.trim role
    match t.inputType? with
    | some inputType =>
      if (roleOfInput? inputType).any (Text.sameIgnoringCase · role) then
        [.violation (.redundantInputRole role inputType) t.locator]
      else []
    | none =>
      if (roleOfElement? t.name).any (Text.sameIgnoringCase · role) then
        [.violation (.redundantElementRole role t.name) t.locator]
      else []

end StartTag

end MapMarkup.Rules
