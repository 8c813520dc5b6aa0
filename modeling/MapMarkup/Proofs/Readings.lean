import MapMarkup.Proofs.StartNotices

/-!
# What the rules read of a start tag

Apart from the walk along its attributes and from its IDs, a start tag is read by looking up the values of names, and
the relations of a link are read as a set of words. Where two tags are equal in these (`StartTag.ReadsAs`), so is
everything that is made of them: what is noted in the frames, what is looked for in the inputs of an `extent`, and what
is said about one attribute or about the tag as a whole.
-/

namespace MapMarkup.Rules

open Vocabulary

/-- Looking up a name gives the same in both tags, but for `rel`, of which it is only asked whether a relation is there;
an `input` does not have relations, so that it reads `rel` as it reads other attributes. -/
structure StartTag.ReadsAs (t u : StartTag) : Prop where
  locator : t.locator = u.locator
  name : t.name = u.name
  get?_eq (key : String) (hkey : key ≠ "rel") : t.get? key = u.get? key
  last?_eq (key : String) (hkey : key ≠ "rel") : t.last? key = u.last? key
  hasRelation_eq (relation : String) : t.hasRelation relation = u.hasRelation relation
  rel_eq : t.name = "input" → t.get? "rel" = u.get? "rel"

namespace StartTag.ReadsAs

variable {t u : StartTag} (h : t.ReadsAs u)

include h

private theorem has_eq (key : String) (hkey : key ≠ "rel") : t.has key = u.has key :=
  congrArg Option.isSome (h.get?_eq key hkey)

private theorem relations_eq_nil_iff : t.relations = [] ↔ u.relations = [] := by
  have hmem (relation : String) : relation ∈ t.relations ↔ relation ∈ u.relations := by
    have hcontains := h.hasRelation_eq relation
    rwa [hasRelation, hasRelation, Bool.eq_iff_iff, List.contains_iff_mem, List.contains_iff_mem] at hcontains
  rw [List.eq_nil_iff_forall_not_mem, List.eq_nil_iff_forall_not_mem]
  exact forall_congr' fun relation => not_congr (hmem relation)

private theorem inputType?_eq : t.inputType? = u.inputType? := by
  simp (disch := decide) only [inputType?, h.name, h.get?_eq]

theorem isInput_eq (inputType : String) : t.isInput inputType = u.isInput inputType := by
  rw [isInput, isInput, h.inputType?_eq]

private theorem isTemplateLink_eq : t.isTemplateLink = u.isTemplateLink := by
  simp (disch := decide) only [isTemplateLink, h.name, h.last?_eq, h.hasRelation_eq]

theorem isSelfStyle_eq : t.isSelfStyle = u.isSelfStyle := by
  rw [isSelfStyle, isSelfStyle, h.name, h.hasRelation_eq, h.hasRelation_eq]

private theorem units_eq : t.units = u.units := by
  rw [units, units, h.get?_eq _ (by decide)]

private theorem locationAxis?_eq : t.locationAxis? = u.locationAxis? := by
  simp (disch := decide) only [locationAxis?, h.units_eq, h.isInput_eq, h.get?_eq, h.has_eq]

theorem isShard_eq : t.isShard = u.isShard := by
  simp (disch := decide) only [isShard, h.isInput_eq, h.has_eq]

theorem isSingleSelect_eq : t.isSingleSelect = u.isSingleSelect := by
  simp (disch := decide) only [isSingleSelect, h.name, h.has_eq]

private theorem noteChild_eq : State.noteChild t = State.noteChild u := by
  funext parent
  have hoption : noteOption t parent = noteOption u parent := by
    simp (disch := decide) only [noteOption, h.name, h.locator, h.get?_eq]
  simp only [State.noteChild, hoption, isQueryLink, h.name, h.isInput_eq, h.locationAxis?_eq, h.hasRelation_eq,
    h.isTemplateLink_eq]

private theorem frameOf_eq (s : State) : s.frameOf t = s.frameOf u := by
  simp (disch := decide) only [State.frameOf, State.decidesByText, needsPlaceholder, h.name, h.locator, h.last?_eq,
    h.has_eq, h.get?_eq, h.isSingleSelect_eq]

private theorem countsSelected_eq (s : State) : s.countsSelected t = s.countsSelected u := by
  simp (disch := decide) only [State.countsSelected, isSelectedOption, h.name, h.has_eq]

theorem framesAfter_eq (s : State) : s.framesAfter t = s.framesAfter u := by
  rw [State.framesAfter, State.framesAfter, h.frameOf_eq, h.countsSelected_eq, h.noteChild_eq]

theorem inputsAfter_eq (s : State) : s.inputsAfter t = s.inputsAfter u := by
  simp (disch := decide) only [State.inputsAfter, StartTag.templateVariables, h.name, h.locator, h.last?_eq]

/-! ### What is said -/

theorem attributeNotices_eq : t.attributeNotices = u.attributeNotices := by
  funext a
  have htypes (types : List String) : t.inputTypeNotices a.name types = u.inputTypeNotices a.name types := by
    have hinput : t.isInput = u.isInput := funext h.isInput_eq
    rw [inputTypeNotices, inputTypeNotices, hinput, h.locator]
  have hstate : t.stateNotices a.name = u.stateNotices a.name := by
    have hkey : "aria-" ++ a.name ≠ "rel" := by
      intro hkey
      simpa using congrArg (·.toList.head?) hkey
    rw [stateNotices, stateNotices, h.get?_eq _ hkey, h.locator]
  simp only [attributeNotices, htypes, hstate, h.name, h.locator]

theorem roleNotices_eq : t.roleNotices = u.roleNotices := by
  simp (disch := decide) only [roleNotices, h.last?_eq, h.inputType?_eq, h.name, h.locator]

theorem inputNotices_eq : t.inputNotices = u.inputNotices := by
  have haxis : t.axisNotices = u.axisNotices := by
    simp (disch := decide) only [axisNotices, h.get?_eq, h.units_eq, h.has_eq, h.locator]
  have hlocation (hn : t.name = "input") : t.locationNotices = u.locationNotices := by
    rw [locationNotices, locationNotices, haxis, h.units_eq, h.rel_eq hn, h.locator]
  have hshard : t.shardNotices = u.shardNotices := by
    simp (disch := decide) only [shardNotices, h.last?_eq, h.has_eq, h.locator]
  rw [inputNotices, inputNotices, hshard, ← h.isInput_eq, h.isShard_eq]
  split
  · rename_i hinput
    exact hlocation (name_of_isInput hinput)
  · rfl

theorem linkNotices_eq (s : State) : linkNotices s t = linkNotices s u := by
  simp (disch := decide) only [linkNotices, noticeIf, h.last?_eq, h.has_eq, h.hasRelation_eq, h.relations_eq_nil_iff,
    h.locator, ne_eq]

theorem optionNotices_eq (s : State) : optionNotices s t = optionNotices s u := by
  rw [optionNotices, optionNotices, h.countsSelected_eq, h.locator]

end StartTag.ReadsAs

end MapMarkup.Rules
