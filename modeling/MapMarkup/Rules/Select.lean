import MapMarkup.Rules.StartTag
import MapMarkup.Rules.State
import MapMarkup.Text.Decimal

/-!
# Rules on selects and their options

A `select` without `multiple` has at most one selected option, however deep the options are. A `select` that requires a
choice and shows one line has a child option, and its first one is a placeholder: its value is empty, or it has neither
a value nor any text other than white space.
-/

namespace MapMarkup.Rules

namespace StartTag

/-- Whether the tag is that of a `select` in which one option can be selected. -/
def isSingleSelect (t : StartTag) : Bool :=
  t.name = "select" && !t.has "multiple"

/-- Whether the tag is that of a `select` whose first option must be a placeholder. -/
def needsPlaceholder (t : StartTag) : Bool :=
  t.isSingleSelect && t.has "required" &&
    !(((t.get? "size").map Text.trim).bind Text.Decimal.ofString?).any Text.Decimal.exceedsOne

/-- Whether the tag is that of a selected option. -/
def isSelectedOption (t : StartTag) : Bool :=
  t.name = "option" && t.has "selected"

end StartTag

/-- Whether an element waits for its first child option to end. -/
def Frame.awaitsOption (f : Frame) : Bool :=
  f.isNamed "select" && f.options.needed && !f.options.found

/-- Whether an element that starts now is a selected option of a `select` in which only one can be selected. -/
def State.countsSelected (s : State) (t : StartTag) : Bool :=
  t.isSelectedOption &&
    match s.fromSelect with
    | [] => false
    | _ :: outer => s.singleSelects.contains outer.length

/-- The notices on the start tag of an option. -/
def optionNotices (s : State) (t : StartTag) : List Notice :=
  if s.countsSelected t && s.fromSelect.head?.any (·.options.selectedFound) then
    [.violation .secondSelectedOption t.locator]
  else []

/-- Whether the text of an option that starts now decides whether it is a placeholder. -/
def State.decidesByText (s : State) (t : StartTag) : Bool :=
  t.name = "option" && s.parent?.any Frame.awaitsOption && !t.has "value"

/-- What a child option tells its parent at its start. -/
def noteOption (t : StartTag) (parent : Frame) : Frame :=
  if t.name = "option" && parent.awaitsOption then
    match t.get? "value" with
    | none => { parent with options.valuelessFound := true }
    | some value => if value = "" then parent else { parent with options.nonEmpty := some t.locator }
  else parent

/-- Notes in the innermost open `select` that one of its options is selected. -/
def noteSelected : List Frame → List Frame
  | [] => []
  | f :: outer =>
    if f.isNamed "select" then { f with options.selectedFound := true } :: outer else f :: noteSelected outer

/-- What an option with frame `f` tells its parent at its end. -/
def noteOptionEnd (f parent : Frame) : Frame :=
  if parent.options.found then parent
  else
    let options := { parent.options with found := true }
    if f.collecting && options.valuelessFound && Text.trim f.text ≠ "" then
      { parent with options := { options with nonEmpty := some f.locator } }
    else { parent with options }

/-- The notices at the end of a `select`, whose frame is `f`. -/
def selectNotices (f : Frame) (locator : Locator) : List Notice :=
  if f.options.needed then
    (if f.options.found then [] else [.violation .requiredSelectWithoutOption locator]) ++
      match f.options.nonEmpty with
      | some option => [.violation .requiredSelectWithoutPlaceholder option]
      | none => []
  else []

end MapMarkup.Rules
