import Mathlib.Data.List.TakeWhile
import MapMarkup.Proofs.Forest
import MapMarkup.Proofs.Journal

/-!
# The first option of a `select`

A `select` that must have a placeholder is told of its options piece by piece: when an option starts, by the text inside
it, and when it ends. All of this comes down to its first child option (`Forest.firstOption?`): once an option has
ended, nothing that is told about options counts any more (`Forest.options_tell_of_found`), and before one starts
nothing is (`Forest.options_tell_of_awaitsOption`).

So the end of the `select` says that there is no option, or that the first one chooses something
(`State.placesOf_requiredSelect`), and the end of no other element says so.
-/

namespace MapMarkup

open Vocabulary (xhtml)

namespace Text

/-- Nothing is left of a text by `trim` if and only if it is white space. -/
private theorem trim_eq_empty_iff {text : String} : trim text = "" ↔ text.toList.all isBlank := by
  have hempty : trim text = "" ↔ (text.toList.dropWhile isBlank).reverse.dropWhile isBlank = [] := by
    rw [trim, String.ofList_eq_empty_iff, trimChars, List.reverse_eq_nil_iff]
  rw [hempty, List.dropWhile_eq_nil_iff, List.all_eq_true]
  constructor
  · intro h
    rw [← List.dropWhile_eq_nil_iff]
    by_contra hne
    -- What `dropWhile` leaves starts with a character that is not white space.
    have hhead := List.head_dropWhile_not (p := isBlank) hne
    rw [h _ (List.mem_reverse.2 (List.head_mem hne))] at hhead
    exact Bool.noConfusion hhead
  · intro h c hc
    exact h c ((List.dropWhile_sublist isBlank).subset (List.mem_reverse.1 hc))

end Text

/-- The first option that no other element contains, with what stands inside it. -/
def Forest.firstOption? (content : Forest) : Option (Rules.StartTag × Forest) :=
  content.children.find? fun child => child.1.name = "option"

namespace Rules

/-- Whether an option that starts with the tag and has the given text of its own chooses something, so that it is no
placeholder: its value is not empty, or it has no value and some text that is not white space. -/
def StartTag.chooses (t : StartTag) (text : String) : Bool :=
  match t.get? "value" with
  | some value => value ≠ ""
  | none => !text.toList.all Text.isBlank

/-! ### What an option tells its parent -/

namespace Frame

variable {f own : Frame} {t : StartTag}

private theorem options_noteChild (t : StartTag) (f : Frame) :
    (State.noteChild t f).options = (noteOption t f).options := rfl

private theorem options_collect (f : Frame) (text : String) : (f.collect text).options = f.options := by
  unfold collect
  split
  · rfl
  · rfl

theorem name_hear (f : Frame) (t : StartTag) (own : Frame) : (f.hear t own).name = f.name :=
  congrArg (·.name) (f.bare_hear t own)

private theorem options_hear_of_ne (f own : Frame) (h : t.name ≠ "option") : (f.hear t own).options = f.options := by
  rw [hear, if_neg h, options_noteChild, noteOption]
  simp only [h, decide_false, Bool.false_and, Bool.false_eq_true, ↓reduceIte]

theorem options_hear_of_found (t : StartTag) (own : Frame) (h : f.options.found) : (f.hear t own).options = f.options := by
  have hnote : noteOption t f = f := by
    unfold noteOption awaitsOption
    simp only [h, Bool.not_true, Bool.and_false, Bool.false_eq_true, ↓reduceIte]
  have hoptions : (State.noteChild t f).options = f.options := by rw [options_noteChild, hnote]
  unfold hear
  split
  · rw [noteOptionEnd, hoptions, if_pos h, hoptions]
  · exact hoptions

private theorem options_noteOption_of_awaitsOption (h : f.awaitsOption) (hn : t.name = "option") :
    (noteOption t f).options =
      match t.get? "value" with
      | none => { f.options with valuelessFound := true }
      | some value => if value = "" then f.options else { f.options with nonEmpty := some t.locator } := by
  simp only [noteOption, hn, h, decide_true, Bool.and_self, ↓reduceIte]
  cases t.get? "value" with
  | none => rfl
  | some value => exact apply_ite Frame.options _ _ _

private theorem options_noteOptionEnd {parent : Frame} (h : parent.options.found = false) :
    (noteOptionEnd own parent).options = { parent.options with
      found := true
      nonEmpty := if own.collecting && parent.options.valuelessFound && Text.trim own.text ≠ "" then some own.locator
        else parent.options.nonEmpty } := by
  rw [noteOptionEnd, if_neg (by simp [h])]
  dsimp only
  split
  · rfl
  · rfl

private theorem needed_hear (f : Frame) (t : StartTag) (own : Frame) :
    (f.hear t own).options.needed = f.options.needed := by
  have hnote : (State.noteChild t f).options.needed = f.options.needed := by
    rw [options_noteChild, noteOption]
    grind
  unfold hear
  split
  · cases hfound : (State.noteChild t f).options.found with
    | true => rw [noteOptionEnd, if_pos hfound, hnote]
    | false => rw [options_noteOptionEnd hfound, hnote]
  · exact hnote

/-- The first option settles whether there is a placeholder. -/
theorem options_hear_of_awaitsOption (h : f.awaitsOption) (hn : t.name = "option")
    (hcollecting : own.collecting = !t.has "value") (hlocator : own.locator = t.locator) :
    let o := (f.hear t own).options
    o.needed = f.options.needed ∧ o.found ∧
      o.nonEmpty = if t.chooses own.text then some t.locator else f.options.nonEmpty := by
  have hfound : f.options.found = false := by
    simp only [awaitsOption, Bool.and_eq_true, Bool.not_eq_true'] at h
    exact h.2
  have hhas : t.has "value" = (t.get? "value").isSome := rfl
  have hnoted := options_noteOption_of_awaitsOption h hn
  have hnotfound : (State.noteChild t f).options.found = false := by
    rw [options_noteChild, hnoted]
    cases t.get? "value" with
    | none => exact hfound
    | some value => by_cases hv : value = "" <;> simp only [hv, ↓reduceIte, hfound]
  rw [hear, if_pos hn, options_noteOptionEnd hnotfound, options_noteChild, hnoted, hcollecting, hhas, hlocator]
  cases hvalue : t.get? "value" with
  | none =>
    have hchooses : t.chooses own.text = decide (Text.trim own.text ≠ "") := by
      simp only [StartTag.chooses, hvalue, ne_eq, Text.trim_eq_empty_iff, decide_not, Bool.decide_eq_true]
    simp [hchooses]
  | some value =>
    have hchooses : t.chooses own.text = decide (value ≠ "") := by simp only [StartTag.chooses, hvalue]
    -- The text has not been collected, and the value has been looked at when the option started.
    by_cases hv : value = ""
    · simp [hchooses, hv]
    · simp [hchooses, hv]

end Frame

end Rules

/-! ### What a `select` has been told in the end -/

namespace Forest

open Rules (Frame)

private theorem firstOption?_element (locator locator' : Locator) (uri name : String) (attributes : Attributes)
    (inside rest : Forest) :
    (element locator locator' uri name attributes inside rest).firstOption? =
      if uri = xhtml ∧ name = "option" then some (⟨locator, name, attributes⟩, inside) else rest.firstOption? := by
  unfold firstOption?
  rw [children]
  by_cases hu : uri = xhtml
  · by_cases hn : name = "option"
    · simp [hu, hn]
    · simp [hu, hn]
  · simp [hu]

private theorem needed_tell (content : Forest) (f : Frame) : (content.tell f).options.needed = f.options.needed := by
  induction content generalizing f with
  | nil => rfl
  | characters text rest ih => rw [tell, ih, f.options_collect]
  | reset rest ih => exact ih f
  | sourceIsCss value rest ih => exact ih f
  | element locator locator' uri name attributes inside rest ihInside ihRest =>
    rw [tell]
    split
    · rw [ihRest, f.needed_hear]
    · exact ihRest f

/-- Options behind the first one make no difference. -/
theorem options_tell_of_found (content : Forest) {f : Frame} (h : f.options.found) :
    (content.tell f).options = f.options := by
  induction content generalizing f with
  | nil => rfl
  | characters text rest ih =>
    have hoptions : (f.collect text).options = f.options := f.options_collect text
    rw [tell, ih (by rw [hoptions]; exact h), hoptions]
  | reset rest ih => exact ih h
  | sourceIsCss value rest ih => exact ih h
  | element locator locator' uri name attributes inside rest ihInside ihRest =>
    rw [tell]
    split
    · have hoptions := Frame.options_hear_of_found ⟨locator, name, attributes⟩
        (inside.tell (f.child ⟨locator, name, attributes⟩)) h
      rw [ihRest (by rw [hoptions]; exact h), hoptions]
    · exact ihRest h

/-- The frame of a child option when it ends, if its `select` awaits an option. -/
private theorem tell_child_of_awaitsOption {f : Frame} (h : f.awaitsOption) {t : Rules.StartTag}
    (hn : t.name = "option")
    (inside : Forest) :
    (inside.tell (f.child t)).collecting = (!t.has "value") ∧ (inside.tell (f.child t)).locator = t.locator ∧
      t.chooses (inside.tell (f.child t)).text = t.chooses inside.ownText := by
  have hbare := inside.bare_tell (f.child t)
  have hcollects : (f.child t).collecting = !t.has "value" := by
    show (decide (t.name = "style") || (decide (t.name = "option") && (some f).any Frame.awaitsOption &&
      !t.has "value")) = _
    simp only [hn, Option.any_some, h]
    rfl
  refine ⟨(congrArg (·.collecting) hbare).trans hcollects, congrArg (·.locator) hbare, ?_⟩
  rw [inside.text_tell, hcollects]
  have hhas : t.has "value" = (t.get? "value").isSome := rfl
  have hempty : (f.child t).text = "" := rfl
  rw [hhas, hempty, String.empty_append]
  unfold Rules.StartTag.chooses
  cases t.get? "value" with
  | none => rfl
  | some value => rfl

/-- A `select` that awaits an option is told by the first one whether there is a placeholder. -/
theorem options_tell_of_awaitsOption (content : Forest) {f : Frame} (h : f.awaitsOption)
    (hnone : f.options.nonEmpty = none) :
    (content.tell f).options.found = content.firstOption?.isSome ∧
      (content.tell f).options.nonEmpty =
        (content.firstOption?.filter fun o => o.1.chooses o.2.ownText).map (·.1.locator) := by
  induction content generalizing f with
  | nil =>
    simp only [Frame.awaitsOption, Bool.and_eq_true, Bool.not_eq_true'] at h
    exact ⟨h.2, hnone⟩
  | characters text rest ih =>
    refine ih ?_ ?_
    · rw [Frame.awaitsOption, Frame.isNamed, f.options_collect]
      have hname : (f.collect text).name = f.name := congrArg (·.name) (f.bare_collect text)
      rw [hname]
      exact h
    · rw [f.options_collect, hnone]
  | reset rest ih => exact ih h hnone
  | sourceIsCss value rest ih => exact ih h hnone
  | element locator locator' uri name attributes inside rest ihInside ihRest =>
    rw [tell, firstOption?_element]
    by_cases hu : uri = xhtml
    · by_cases hn : name = "option"
      · obtain ⟨hcollecting, hlocator, hchooses⟩ :=
          tell_child_of_awaitsOption h (t := ⟨locator, name, attributes⟩) hn inside
        obtain ⟨-, hfound, hnonEmpty⟩ := Frame.options_hear_of_awaitsOption h hn hcollecting hlocator
        rw [if_pos hu, if_pos ⟨hu, hn⟩, options_tell_of_found rest hfound, hnonEmpty, hchooses, hnone]
        refine ⟨hfound, ?_⟩
        rw [Option.filter_some]
        split
        · rfl
        · rfl
      · have hoptions := f.options_hear_of_ne (t := ⟨locator, name, attributes⟩)
          (inside.tell (f.child ⟨locator, name, attributes⟩)) hn
        rw [if_pos hu, if_neg (fun hboth => hn hboth.2)]
        refine ihRest ?_ ?_
        · rw [Frame.awaitsOption, Frame.isNamed, Frame.name_hear, hoptions]
          exact h
        · rw [hoptions, hnone]
    · rw [if_neg hu, if_neg (fun hboth => hu hboth.1)]
      exact ihRest h hnone

end Forest

namespace Rules

private theorem placesOf_missing_selectNotices (f : Frame) (locator : Locator) :
    placesOf .requiredSelectWithoutOption (selectNotices f locator) =
      if f.options.needed && !f.options.found then [locator] else [] := by
  unfold selectNotices placesOf
  cases f.options.needed <;> cases f.options.found <;> cases f.options.nonEmpty <;> rfl

private theorem placesOf_choosing_selectNotices (f : Frame) (locator : Locator) :
    placesOf .requiredSelectWithoutPlaceholder (selectNotices f locator) =
      if f.options.needed then f.options.nonEmpty.toList else [] := by
  unfold selectNotices placesOf
  cases f.options.needed <;> cases f.options.found <;> cases f.options.nonEmpty <;> rfl

namespace State

/-- What the end of a `select` says about its options, if it started with the tag. -/
private theorem notices_endSelect (s : State) {t : StartTag} (hn : t.name = "select") (content : Forest)
    (locator : Locator) :
    ∃ (f : Frame) (others : List Locator),
      ((s.start t).run content.events).notices (.endElement locator xhtml t.name) =
        selectNotices f locator ++ others.map (.violation .activeDescendantElsewhere ·) ∧
      f.options.needed = t.needsPlaceholder ∧
      (t.needsPlaceholder → f.options.found = content.firstOption?.isSome ∧
        f.options.nonEmpty = (content.firstOption?.filter fun o => o.1.chooses o.2.ownText).map (·.1.locator)) := by
  obtain ⟨f, outer, hframes, -, hf⟩ := s.exists_frame_run t content
  have hneeded : (s.frameOf t).options.needed = t.needsPlaceholder := rfl
  let others := ((s.start t).run content.events).pendingDescendants.lookup outer.length
  refine ⟨f.told, others.toList, ?_, ?_, ?_⟩
  · rw [notices_endElement hframes]
    simp only [↓reduceIte, elementNotices, hn]
    rfl
  · rw [hf, content.needed_tell, hneeded]
  · intro hasks
    have hawaits : (s.frameOf t).awaitsOption := by
      show (decide (some t.name = some "select") && t.needsPlaceholder && !false) = true
      rw [hasks, hn]
      rfl
    rw [hf]
    exact content.options_tell_of_awaitsOption hawaits rfl

/-- The end of an element of the vocabulary that must have a placeholder says that it has no child option, at the end
tag, or that its first one chooses something, at the place of that option. No other event says so. -/
theorem placesOf_requiredSelect (s : State) (locator locator' : Locator) (uri name : String) (attributes : Attributes)
    (content : Forest) :
    let t : StartTag := ⟨locator, name, attributes⟩
    let reached := s.run (.startElement locator uri name attributes :: content.events)
    let said := reached.notices (.endElement locator' uri name)
    let asks := uri = xhtml && t.needsPlaceholder
    placesOf .requiredSelectWithoutOption said =
      (if asks && content.firstOption?.isNone then [locator'] else []) ∧
    placesOf .requiredSelectWithoutPlaceholder said =
      (if asks then ((content.firstOption?.filter fun o => o.1.chooses o.2.ownText).map (·.1.locator)).toList
      else []) ∧
    ∀ (s' : State) (e : Event), e.ends "select" = false →
      placesOf .requiredSelectWithoutOption (s'.notices e) = [] ∧
      placesOf .requiredSelectWithoutPlaceholder (s'.notices e) = [] := by
  intro t reached said asks
  have hothers : ∀ (s' : State) (e : Event), e.ends "select" = false →
      placesOf .requiredSelectWithoutOption (s'.notices e) = [] ∧
      placesOf .requiredSelectWithoutPlaceholder (s'.notices e) = [] :=
    fun s' e he => ⟨placesOf_notices_eq_nil (v := .requiredSelectWithoutOption) he s',
      placesOf_notices_eq_nil (v := .requiredSelectWithoutPlaceholder) he s'⟩
  rw [← and_assoc]
  refine ⟨?_, hothers⟩
  by_cases hselect : uri = xhtml ∧ name = "select"
  · obtain ⟨rfl, hn⟩ := hselect
    obtain ⟨f, others, hsaid, hneeded, htold⟩ := s.notices_endSelect (t := t) hn content locator'
    have hsaid' : said = _ := hsaid
    have hasks : asks = t.needsPlaceholder := by simp [asks]
    rw [hsaid', placesOf_append, placesOf_append, placesOf_missing_selectNotices, placesOf_choosing_selectNotices,
      placesOf_map, placesOf_map, hneeded, hasks]
    cases hneeds : t.needsPlaceholder with
    | false => simp
    | true =>
      obtain ⟨hfound, hnonEmpty⟩ := htold hneeds
      rw [hfound, hnonEmpty]
      simp
  · have hends : Event.ends "select" (.endElement locator' uri name) = false := by
      simpa [Event.ends] using hselect
    have hasks : asks = false := by
      simp only [asks, t, StartTag.needsPlaceholder, StartTag.isSingleSelect]
      by_cases hu : uri = xhtml
      · have hn : name ≠ "select" := fun hn => hselect ⟨hu, hn⟩
        simp only [hn, decide_false, Bool.false_and, Bool.and_false]
      · simp only [hu, decide_false, Bool.false_and]
    obtain ⟨hmissing, hchoosing⟩ := hothers reached _ hends
    rw [hasks]
    exact ⟨hmissing, hchoosing⟩

/-- Options inside a group and outside the vocabulary, in front of two child options, of which the first one has text
of its own and no value. -/
def groupedOptions : Forest :=
  .onLine 2 "optgroup" [] (.onLine 3 "option" [("value", "")] .nil .nil) <|
  .element ⟨4, 40, none, none⟩ ⟨4, 50, none, none⟩ "" "option" [] .nil <|
  .onLine 5 "option" [] (.onLine 6 "b" [] (.characters "all" .nil) (.characters " none " .nil)) <|
  .onLine 7 "option" [("value", "")] .nil .nil

/-- Of the sizes, `1.0000000000000001` is 1 as a number of double precision, and `1.0000000000000003` is not. -/
theorem placesOf_requiredSelect_groupedOptions :
    let reached (pairs : List (String × String)) := ({} : State).run
      (.startElement ⟨1, 9, none, none⟩ xhtml "select" (.ofPairs (("required", "") :: pairs)) :: groupedOptions.events)
    let said (pairs : List (String × String)) := (reached pairs).notices (.endElement ⟨8, 10, none, none⟩ xhtml "select")
    (∀ size ∈ [" 1 ", "1.0000000000000001", "-3", "all"],
      placesOf .requiredSelectWithoutOption (said [("size", size)]) = [] ∧
      placesOf .requiredSelectWithoutPlaceholder (said [("size", size)]) = [⟨5, 40, none, none⟩]) ∧
    (∀ pairs ∈ [[("size", "2")], [("size", "1.0000000000000003")], [("multiple", "")]],
      placesOf .requiredSelectWithoutOption (said pairs) = [] ∧
      placesOf .requiredSelectWithoutPlaceholder (said pairs) = []) ∧
    placesOf .requiredSelectWithoutPlaceholder ((reached []).notices (.endElement ⟨8, 10, none, none⟩ xhtml "option")) =
      [] := by
  intro reached said
  have hsaid (pairs : List (String × String)) := placesOf_requiredSelect {} ⟨1, 9, none, none⟩ ⟨8, 10, none, none⟩
    xhtml "select" (.ofPairs (("required", "") :: pairs)) groupedOptions
  refine ⟨fun size hsize => ?_, fun pairs hpairs => ?_, ?_⟩
  · obtain ⟨hmissing, hchoosing, -⟩ := hsaid [("size", size)]
    exact ⟨hmissing.trans (by revert size; decide +kernel), hchoosing.trans (by revert size; decide +kernel)⟩
  · obtain ⟨hmissing, hchoosing, -⟩ := hsaid pairs
    exact ⟨hmissing.trans (by revert pairs; decide +kernel), hchoosing.trans (by revert pairs; decide +kernel)⟩
  · exact ((hsaid []).2.2 (reached []) (.endElement ⟨8, 10, none, none⟩ xhtml "option") (by decide)).2

end State

end Rules

end MapMarkup
