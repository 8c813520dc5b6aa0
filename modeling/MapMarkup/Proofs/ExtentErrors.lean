import Mathlib.Logic.Basic
import MapMarkup.Proofs.Children
import MapMarkup.Proofs.Failures

/-!
# What the end of an `extent` says about its inputs

`extentErrors` says from the attributes of an `extent` and the start tags of its children what is wrong with them: that
no input gives the zoom level or a coordinate, that the inputs give a coordinate system by halves, or that a link with a
template makes its `action` superfluous. A coordinate system is given by halves if some of its axes but not all of them
are covered, or if all that its inputs give are axes of other systems (`isIncomplete`).

The end of an `extent` says exactly this, at its end tag, before it says which template variables are not bound and
whether its active descendant is missing (`Checker.feedAll_endExtent`).
-/

namespace MapMarkup

namespace Rules

open Vocabulary

namespace StartTag

/-- Whether the tag is that of an `input` whose `type` is the given one. -/
def isInputOf (t : StartTag) (type : String) : Bool :=
  t.name = "input" && (t.get? "type").any (Text.sameIgnoringCase · type)

/-- The coordinate system that an axis of the input counts for: that of its units, unless it has a position and the axis
is a known one. -/
def systemOf (t : StartTag) (axis : String) : String :=
  let units := (t.get? "units").getD "tcrs"
  if t.has "position" then
    match coordinateSystems.find? fun (_, axes) => axes.contains axis with
    | some (system, _) => system
    | none => units
  else units

/-- Whether the tag is that of a location input with an axis. -/
def givesAxis (t : StartTag) : Bool :=
  t.isInputOf "location" && t.has "axis"

/-- Whether the tag is that of a location input whose axis counts for the coordinate system. -/
def givesAxisOf (t : StartTag) (system : String) : Bool :=
  t.isInputOf "location" && (t.get? "axis").any fun axis => t.systemOf axis = system

/-- Whether the tag is that of a location input that covers the axis of the coordinate system. -/
def covers (t : StartTag) (system axis : String) : Bool :=
  t.isInputOf "location" && t.get? "axis" = some axis && t.systemOf axis = system

/-- Whether the tag is that of a link with a template for tiles, images or features, and not of a query. -/
def makesActionSuperfluous (t : StartTag) : Bool :=
  t.name = "link" && t.has "tref" && ["tile", "image", "features"].any t.relations.contains &&
    !t.relations.contains "query"

end StartTag

/-- Whether the tags cover some axes of the coordinate system but not all of them, or give foreign axes for it only. -/
def isIncomplete (tags : List StartTag) (system : String × List String) : Bool :=
  let covered (axis : String) := tags.any (·.covers system.1 axis)
  (system.2.any covered && !system.2.all covered) || (tags.any (·.givesAxisOf system.1) && !system.2.any covered)

/-- What is wrong with an `extent` that has the attributes and, among others, the children with the start tags. -/
def extentErrors (attributes : Attributes) (children : List StartTag) : List Violation :=
  (if children.any (·.isInputOf "zoom") then [] else [.extentWithoutZoom]) ++
  (if children.any (·.givesAxis) then
    (coordinateSystems.filter (isIncomplete children)).map fun _ => .extentWithoutAxisPair
  else [.extentWithoutLocation]) ++
  if attributes.has "" "action" && children.any (·.makesActionSuperfluous) then [.extentActionWithTemplates] else []

/-! ### What the rules make of the children -/

namespace StartTag

variable (t : StartTag)

/-- An attribute is there if and only if a last one is. -/
private theorem isSome_last? (key : String) : (t.last? key).isSome = t.has key := by
  rw [last?, has, Attributes.last?, Attributes.has, Attributes.get?, Option.isSome_map, Option.isSome_map,
    ← List.head?_filter]
  cases t.attributes.filter _ <;> simp

/-- An input without a `type` is one for text. -/
theorem isInputOf_eq {type : String} (hlower : type.toLower = type) (htext : type ≠ "text") :
    t.isInputOf type = t.isInput type := by
  unfold isInputOf isInput inputType?
  by_cases hn : t.name = "input"
  · cases t.get? "type" with
    | none => simp [hn, htext.symm]
    | some value => simp [hn, Text.sameIgnoringCase, hlower, beq_eq_decide]
  · simp [hn]

theorem systemOf_eq (axis : String) :
    t.systemOf axis = if t.has "position" then (systemOfAxis? axis).getD t.units else t.units := by
  unfold systemOf systemOfAxis?
  dsimp only
  split
  · split
    · rename_i system axes hfound
      rw [hfound]
      rfl
    · rename_i hfound
      rw [hfound]
      rfl
  · rfl

private theorem locationAxis?_eq :
    t.locationAxis? = if t.isInputOf "location" then (t.get? "axis").map fun axis => (t.systemOf axis, axis) else none := by
  rw [locationAxis?, isInputOf_eq t (by decide +kernel) (by decide)]
  simp only [systemOf_eq]

private theorem isSome_locationAxis? : t.locationAxis?.isSome = t.givesAxis := by
  rw [locationAxis?_eq, givesAxis]
  cases t.isInputOf "location" <;> simp [has, Attributes.has, get?]

private theorem any_locationAxis? (system : String) : t.locationAxis?.any (·.1 = system) = t.givesAxisOf system := by
  rw [locationAxis?_eq, givesAxisOf]
  cases t.isInputOf "location" <;> simp [Option.any_map]

private theorem covers_eq (system axis : String) : (t.locationAxis? = some (system, axis)) = t.covers system axis := by
  rw [locationAxis?_eq, covers]
  cases t.isInputOf "location" <;> cases t.get? "axis" <;> simp
  grind

private theorem isTemplateLink_eq : t.isTemplateLink = t.makesActionSuperfluous := by
  unfold isTemplateLink makesActionSuperfluous hasRelation
  rw [isSome_last?]
  simp only [List.any_cons, List.any_nil, Bool.or_false, Bool.or_assoc, Bool.and_assoc]
  congr 2
  exact Bool.and_comm _ _

end StartTag

variable (tags : List StartTag)

private theorem isEmpty_filterMap_locationAxis? :
    tags.filterMap (·.locationAxis?) = [] ↔ tags.any (·.givesAxis) = false := by
  simp only [List.filterMap_eq_nil_iff, List.any_eq_false, ← StartTag.isSome_locationAxis?, Option.not_isSome_iff_eq_none]

private theorem any_filterMap_locationAxis? (system : String) :
    (tags.filterMap (·.locationAxis?)).any (·.1 = system) = tags.any (·.givesAxisOf system) := by
  rw [List.any_filterMap]
  congr 1
  funext t
  rw [← StartTag.any_locationAxis?]
  cases t.locationAxis? <;> rfl

private theorem contains_filterMap_locationAxis? (system axis : String) :
    (tags.filterMap (·.locationAxis?)).contains (system, axis) = tags.any (·.covers system axis) := by
  rw [Bool.eq_iff_iff, List.contains_iff_mem, List.mem_filterMap, List.any_eq_true]
  simp only [← StartTag.covers_eq]

/-- An axis that is covered counts for its coordinate system. -/
private theorem any_givesAxisOf_of_covers {tags : List StartTag} {system axis : String}
    (h : tags.any (·.covers system axis)) : tags.any (·.givesAxisOf system) := by
  rw [← contains_filterMap_locationAxis?, List.contains_iff_mem] at h
  rw [← any_filterMap_locationAxis?]
  exact List.any_eq_true.2 ⟨_, h, decide_eq_true rfl⟩

private theorem lacksAxis_eq {system : String × List String} (hne : system.2 ≠ []) :
    lacksAxis (tags.filterMap (·.locationAxis?)) system = isIncomplete tags system := by
  obtain ⟨system, axes⟩ := system
  unfold lacksAxis isIncomplete
  simp only [any_filterMap_locationAxis?, contains_filterMap_locationAxis?]
  by_cases hany : axes.any fun axis => tags.any (·.covers system axis)
  · obtain ⟨axis, -, haxis⟩ := List.any_eq_true.1 hany
    simp [hany, any_givesAxisOf_of_covers haxis]
  · -- With no axis covered, not all are.
    obtain ⟨axis, haxis⟩ := List.exists_mem_of_ne_nil axes hne
    have hall : (axes.all fun axis => tags.any (·.covers system axis)) = false := by
      refine List.all_eq_false.2 ⟨axis, haxis, fun hcovers => hany (List.any_eq_true.2 ⟨axis, haxis, hcovers⟩)⟩
    simp only [Bool.not_eq_true] at hany
    simp only [hany, hall, Bool.not_false, Bool.and_true, Bool.false_or]

private theorem filter_lacksAxis :
    coordinateSystems.filter (lacksAxis (tags.filterMap (·.locationAxis?))) =
      coordinateSystems.filter (isIncomplete tags) := by
  have hne : ∀ system ∈ coordinateSystems, system.2 ≠ [] := by decide
  exact List.filter_congr fun system hsystem => lacksAxis_eq tags (hne system hsystem)

/-- The notices at the end of an `extent` that started with the tag and has been told of its children. -/
theorem extentNotices_eq (s s' : State) {t : StartTag} (ht : t.name = "extent") {f : Frame}
    (hf : f.kept = tags.foldl Kept.note (s'.frameOf t).kept) (locator : Locator) :
    extentNotices s f locator = (extentErrors t.attributes tags).map (.violation · locator) ++
      s.inputs.unresolved.map fun r => .violation (.unboundVariable r.name) r.locator := by
  rw [State.kept_frameOf, ht, StartTag.isSome_last?, Kept.foldl_note] at hf
  have hnotes : f.extent = _ := congrArg Prod.snd hf
  have haction : t.has "action" = t.attributes.has "" "action" := rfl
  have hzoom : (tags.any fun t => t.isInput "zoom") = tags.any (·.isInputOf "zoom") := by
    simp only [fun t => StartTag.isInputOf_eq t (show "zoom".toLower = "zoom" by decide +kernel) (by decide)]
  unfold extentNotices extentErrors
  simp only [hnotes, haction, List.nil_append, Bool.false_or, hzoom, filter_lacksAxis, isEmpty_filterMap_locationAxis?,
    StartTag.isTemplateLink_eq, decide_true, Bool.true_and, List.map_append]
  congr 3
  · split <;> rfl
  · cases tags.any (·.givesAxis) <;> simp
  · split <;> rfl

end Rules

namespace Checker

open Event (emptyElement nestAll?)
open Rules (Notice extentErrors childTags)
open Vocabulary (xhtml)

variable {σ : Type} [Sink σ] {m : Type → Type} [Monad m] [LawfulMonad m]

/-- A sink that is given violations, each with its place. -/
def reportAll (sink : σ) (violations : List (Violation × Locator)) : σ :=
  violations.foldl (fun sink v => Sink.report sink v.1.level v.1.message v.2) sink

/-- The end of an `extent` reports what is wrong with the `extent` and its children, at its end tag; then the template
variables that are not bound, and then that its active descendant has not been found, at their own places. -/
theorem feedAll_endExtent (css : CssParser m) (c : Checker σ) (locator locator' : Locator) (attributes : Attributes)
    {content : List Event} (h : nestAll? [] content = some []) :
    let events := .startElement locator xhtml "extent" attributes :: content
    let reached := c.state.run events
    let own := (extentErrors attributes (childTags content)).map fun v => (v, locator')
    let unbound := reached.inputs.unresolved.map fun r => (.unboundVariable r.name, r.locator)
    let elsewhere := (reached.pendingDescendants.lookup c.depth).toList.map fun place =>
      (.activeDescendantElsewhere, place)
    c.feedAll css (events ++ [.endElement locator' xhtml "extent"]) = do
      let checked ← c.feedAll css events
      return {
        state := checked.state.next (.endElement locator' xhtml "extent")
        sink := reportAll checked.sink (own ++ unbound ++ elsewhere) } := by
  intro events reached own unbound elsewhere
  have hlast : reached.notices (.endElement locator' xhtml "extent") =
      (own ++ unbound ++ elsewhere).map fun v => .violation v.1 v.2 := by
    obtain ⟨f, outer, hframes, hdepth, hf⟩ := c.state.exists_frame_of_content ⟨locator, "extent", attributes⟩ h
    have hreached : reached = (c.state.start ⟨locator, "extent", attributes⟩).run content := rfl
    have hextent := Rules.extentNotices_eq (childTags content) reached c.state rfl hf locator'
    have hnotices : reached.notices (.endElement locator' xhtml "extent") =
        Rules.extentNotices reached f locator' ++
          (reached.pendingDescendants.lookup c.depth).toList.map (.violation .activeDescendantElsewhere ·) := by
      rw [← hreached] at hframes
      simp only [Rules.State.notices, hframes, Rules.State.endNotices, Rules.State.elementNotices, hdepth]
      rfl
    rw [hnotices, hextent]
    simp only [own, unbound, elsewhere, List.map_append, List.map_map]
    rfl
  rw [feedAll_eq, feedAll_eq, Rules.State.runNotices_append, List.foldlM_append,
    Rules.State.runNotices_cons _ (.endElement ..), hlast, Rules.State.runNotices_nil, List.append_nil,
    Rules.State.run_append]
  simp only [foldlM_deliver_violations, bind_pure_comp, Functor.map_map]
  rfl

/-- An input for the zoom level inside an element outside the vocabulary, one axis each of two coordinate systems, an
unknown axis of a third one, and a link with a template. -/
def halfExtent : List Event :=
  .startElement ⟨2, 10, none, none⟩ "" "g" [] :: emptyElement 2 "input" [("type", "zoom")] ++
  .endElement ⟨2, 60, none, none⟩ "" "g" :: emptyElement 3 "input" [("type", "Location"), ("units", "tilematrix"),
    ("axis", "row")] ++
  emptyElement 4 "input" [("type", "location"), ("axis", "i"), ("position", "top-left")] ++
  emptyElement 5 "input" [("type", "location"), ("units", "gcrs"), ("axis", "up"),
    ("position", "top-left")] ++
  emptyElement 6 "link" [("rel", "Tile"), ("tref", "t")]

theorem feedAll_endExtent_halfExtent :
    nestAll? [] halfExtent = some [] ∧
    (feedAll (m := Id) .none { sink := ({} : Collector) }
      (.startElement ⟨1, 20, none, none⟩ xhtml "extent" (.ofPairs [("action", "")]) :: halfExtent ++
        [.endElement ⟨7, 10, none, none⟩ xhtml "extent"])).run.sink.diagnostics = [
        ⟨.error, Violation.extentWithoutZoom.message, ⟨7, 10, none, none⟩, none⟩,
        ⟨.error, Violation.extentWithoutAxisPair.message, ⟨7, 10, none, none⟩, none⟩,
        ⟨.error, Violation.extentWithoutAxisPair.message, ⟨7, 10, none, none⟩, none⟩,
        ⟨.error, Violation.extentWithoutAxisPair.message, ⟨7, 10, none, none⟩, none⟩,
        ⟨.warning, Violation.extentActionWithTemplates.message, ⟨7, 10, none, none⟩, none⟩] := by
  have hnested : nestAll? [] halfExtent = some [] := by decide
  refine ⟨hnested, ?_⟩
  rw [feedAll_endExtent _ _ _ _ _ hnested]
  decide +kernel

end Checker

end MapMarkup
