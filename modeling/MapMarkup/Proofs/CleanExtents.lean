import MapMarkup.Proofs.ExtentErrors
import MapMarkup.Proofs.Journal

/-!
# Extents that nothing is wrong with

If neither the start tags of its inputs nor its own end say an error, then an `extent` has an input for the zoom level
and a location input with an axis, and each coordinate system of the table that one of its axes counts for is given
with both axes (`covers_of_extentErrors`). So the `extent` gives a coordinate system if, and only if, one of its
location inputs speaks of the table at all: by its units, or by its axis when it has a position
(`State.givesSystem_of_clean`). Units that the table does not have are taken as they are, and inputs that all have such
units may leave every coordinate system incomplete (`State.not_givesSystem_of_otherUnits`).
-/

namespace MapMarkup.Rules

open Vocabulary

/-- Whether a notice is an error of the rules themselves; whether there are errors in a stylesheet is up to the parser. -/
def Notice.isError : Notice → Bool
  | violation v _ => v.level = .error
  | styleAttribute .. | stylesheet .. => false

/-- Whether the inputs give both axes of some coordinate system of the table. -/
def givesSystem (tags : List StartTag) : Bool :=
  coordinateSystems.any fun (system, axes) => axes.all fun axis => tags.any (·.covers system axis)

/-- Whether the tag is that of a location input that speaks of a coordinate system of the table, by its units, or by its
axis if it has a position. -/
def StartTag.isInTable (t : StartTag) : Bool :=
  t.isInputOf "location" &&
    ((axesOf? ((t.get? "units").getD "tcrs")).isSome || (t.has "position" && ((t.get? "axis").bind systemOfAxis?).isSome))

/-! ### Coordinate systems -/

private theorem exists_mem_coordinateSystems_iff {system : String} :
    (∃ axes, (system, axes) ∈ coordinateSystems) ↔ (axesOf? system).isSome := by
  constructor
  · have hall : ∀ entry ∈ coordinateSystems, (axesOf? entry.1).isSome := by decide +kernel
    rintro ⟨axes, hmem⟩
    exact hall _ hmem
  · intro h
    obtain ⟨axes, haxes⟩ := Option.isSome_iff_exists.1 h
    obtain ⟨before, after, hsplit, -⟩ := List.lookup_eq_some_iff.1 haxes
    exact ⟨axes, by rw [hsplit]; simp⟩

private theorem isSome_axesOf?_of_systemOfAxis? {axis system : String} (h : systemOfAxis? axis = some system) :
    (axesOf? system).isSome := by
  obtain ⟨⟨system', axes⟩, hfound, rfl⟩ := Option.map_eq_some_iff.1 h
  exact exists_mem_coordinateSystems_iff.1 ⟨axes, List.mem_of_find?_eq_some hfound⟩

namespace StartTag

variable {t : StartTag} {axis : String}

/-- The axis of a location input counts for a coordinate system of the table if and only if the input speaks of the
table. -/
private theorem isSome_axesOf?_systemOf (ht : t.isInputOf "location") (haxis : t.get? "axis" = some axis) :
    (axesOf? (t.systemOf axis)).isSome = t.isInTable := by
  have hunits : t.units = (t.get? "units").getD "tcrs" := rfl
  rw [isInTable, ht, haxis, systemOf_eq, hunits, Option.bind_some, Bool.true_and]
  cases t.has "position" with
  | false => simp
  | true =>
    cases hsystem : systemOfAxis? axis with
    | none => simp
    | some system => simp [isSome_axesOf?_of_systemOfAxis? hsystem]

end StartTag

/-! ### What silence at the end tag says -/

private theorem any_of_extentErrors {attributes : Attributes} {tags : List StartTag}
    (h : ∀ v ∈ extentErrors attributes tags, v.level ≠ .error) :
    tags.any (·.isInputOf "zoom") ∧ tags.any (·.givesAxis) ∧ coordinateSystems.filter (isIncomplete tags) = [] := by
  have hzoom : tags.any (·.isInputOf "zoom") := by
    rw [← Bool.not_eq_false]
    intro hno
    exact h .extentWithoutZoom (by rw [extentErrors, hno]; simp) rfl
  have hlocation : tags.any (·.givesAxis) := by
    rw [← Bool.not_eq_false]
    intro hno
    exact h .extentWithoutLocation (by rw [extentErrors, hno]; simp) rfl
  refine ⟨hzoom, hlocation, ?_⟩
  rw [List.filter_eq_nil_iff]
  intro system hsystem hincomplete
  have hmem : system ∈ coordinateSystems.filter (isIncomplete tags) := List.mem_filter.2 ⟨hsystem, hincomplete⟩
  have herror : .extentWithoutAxisPair ∈ (coordinateSystems.filter (isIncomplete tags)).map
      fun _ => Violation.extentWithoutAxisPair := List.mem_map.2 ⟨system, hmem, rfl⟩
  have hsaid : .extentWithoutAxisPair ∈ extentErrors attributes tags := by
    rw [extentErrors, if_pos hlocation]
    exact List.mem_append_left _ (List.mem_append_right _ herror)
  exact h _ hsaid rfl

/-- A coordinate system that is not incomplete is given with all of its axes if any axis counts for it. -/
private theorem all_covers_of_not_isIncomplete {tags : List StartTag} {system : String × List String}
    (h : isIncomplete tags system = false) (hgives : tags.any (·.givesAxisOf system.1)) :
    system.2.all fun axis => tags.any (·.covers system.1 axis) := by
  simp only [isIncomplete, hgives, Bool.true_and, Bool.or_eq_false_iff, Bool.not_eq_false'] at h
  obtain ⟨hall, hany⟩ := h
  rw [hany, Bool.true_and, Bool.not_eq_false'] at hall
  exact hall

/-- If no location input lacks its axis and no coordinate system is incomplete, then some is given if and only if an
input speaks of the table. -/
private theorem givesSystem_eq {tags : List StartTag} (hcomplete : coordinateSystems.filter (isIncomplete tags) = [])
    (haxis : ∀ t ∈ tags, t.isInputOf "location" → t.has "axis") : givesSystem tags = tags.any (·.isInTable) := by
  rw [Bool.eq_iff_iff]
  constructor
  · intro h
    obtain ⟨⟨system, axes⟩, hsystem, hall⟩ := List.any_eq_true.1 h
    have hne : axes ≠ [] := (show ∀ system ∈ coordinateSystems, system.2 ≠ [] by decide) _ hsystem
    obtain ⟨axis, hmem⟩ := List.exists_mem_of_ne_nil axes hne
    obtain ⟨t, ht, hcovers⟩ := List.any_eq_true.1 (List.all_eq_true.1 hall axis hmem)
    simp only [StartTag.covers, Bool.and_eq_true, decide_eq_true_eq] at hcovers
    obtain ⟨⟨hinput, haxis⟩, hof⟩ := hcovers
    have hin := exists_mem_coordinateSystems_iff.1 ⟨axes, hsystem⟩
    rw [← hof, StartTag.isSome_axesOf?_systemOf hinput haxis] at hin
    exact List.any_eq_true.2 ⟨t, ht, hin⟩
  · intro h
    obtain ⟨t, ht, hin⟩ := List.any_eq_true.1 h
    have hinput : t.isInputOf "location" := by
      rw [StartTag.isInTable, Bool.and_eq_true] at hin
      exact hin.1
    obtain ⟨axis, hget⟩ := Option.isSome_iff_exists.1 (haxis t ht hinput)
    have hget' : t.get? "axis" = some axis := hget
    rw [← StartTag.isSome_axesOf?_systemOf hinput hget'] at hin
    obtain ⟨axes, hsystem⟩ := exists_mem_coordinateSystems_iff.2 hin
    have hgives : tags.any (·.givesAxisOf (t.systemOf axis)) :=
      List.any_eq_true.2 ⟨t, ht, by simp [StartTag.givesAxisOf, hinput, hget']⟩
    have hnot : isIncomplete tags (t.systemOf axis, axes) = false := by
      simpa using List.filter_eq_nil_iff.1 hcomplete _ hsystem
    exact List.any_eq_true.2 ⟨_, hsystem, all_covers_of_not_isIncomplete hnot hgives⟩

namespace State

/-! ### What silence at the start tags says -/

/-- The start tag of a child has an entry in the journal of what stands around it. -/
private theorem exists_entry_of_mem_tags (content : Forest) (s : State) {t : StartTag} (ht : t ∈ content.tags) :
    ∃ s' : State, ⟨[], .startElement t.locator xhtml t.name t.attributes, s'.startNotices t⟩ ∈
      s.journal [] content.events := by
  induction content generalizing s with
  | nil => simp [Forest.tags, Forest.children] at ht
  | characters text rest ih | reset rest ih | sourceIsCss value rest ih =>
    obtain ⟨s', hmem⟩ := ih _ ht
    exact ⟨s', List.mem_cons_of_mem _ hmem⟩
  | element locator locator' uri name attributes inside rest ihInside ihRest =>
    rw [Forest.tags_element, List.mem_append] at ht
    rcases ht with ht | ht
    · split at ht
      · rename_i hu
        obtain rfl := List.mem_singleton.1 ht
        refine ⟨s, ?_⟩
        rw [Forest.events, hu, List.cons_append, journal, notices_start s ⟨locator, name, attributes⟩]
        exact List.mem_cons_self
      · simp at ht
    · obtain ⟨s', hmem⟩ := ihRest _ ht
      refine ⟨s', ?_⟩
      rw [Forest.events, List.cons_append, journal, journal_append, journal, inside.trackAll_events]
      exact List.mem_cons_of_mem _ (List.mem_append_right _ (List.mem_cons_of_mem _ hmem))

private theorem has_axis_of_startNotices {s : State} {t : StartTag} (ht : t.isInputOf "location")
    (h : ∀ n ∈ s.startNotices t, n.isError = false) : t.has "axis" := by
  have hinput : t.isInput "location" := by
    rwa [StartTag.isInputOf_eq t (by decide +kernel) (by decide)] at ht
  cases haxis : t.get? "axis" with
  | some axis => exact Option.isSome_of_eq_some haxis
  | none =>
    have hmissing : .violation .axisMissing t.locator ∈ t.inputNotices := by
      simp [StartTag.inputNotices, hinput, StartTag.locationNotices, StartTag.axisNotices, haxis]
    have hmem : .violation .axisMissing t.locator ∈ s.startNotices t := by
      simp only [startNotices, List.mem_append]
      exact .inl (.inl (.inr hmissing))
    have herror : (Notice.violation .axisMissing t.locator).isError := rfl
    rw [h _ hmem] at herror
    exact Bool.noConfusion herror

/-- If neither the start tags of its inputs nor its own end tag say an error, an `extent` has an input for the zoom
level and a location input with an axis, and it gives a coordinate system of the table if and only if one of its
location inputs speaks of the table. -/
theorem givesSystem_of_clean (s : State) (locator locator' : Locator) (attributes : Attributes) (content : Forest)
    (hinputs : ∀ e ∈ (s.start ⟨locator, "extent", attributes⟩).journal [] content.events,
      e.opened = [] → e.event.starts "input" → ∀ n ∈ e.notices, n.isError = false)
    (hend : ∀ n ∈ (s.run (.startElement locator xhtml "extent" attributes :: content.events)).notices
      (.endElement locator' xhtml "extent"), n.isError = false) :
    content.tags.any (·.isInputOf "zoom") ∧ content.tags.any (·.givesAxis) ∧
      givesSystem content.tags = content.tags.any (·.isInTable) := by
  have haxis : ∀ t ∈ content.tags, t.isInputOf "location" → t.has "axis" := by
    intro t ht hlocation
    obtain ⟨s', hentry⟩ := exists_entry_of_mem_tags content (s.start ⟨locator, "extent", attributes⟩) ht
    have hn : t.name = "input" := by
      simp only [StartTag.isInputOf, Bool.and_eq_true, decide_eq_true_eq] at hlocation
      exact hlocation.1
    refine has_axis_of_startNotices hlocation (hinputs _ hentry rfl ?_)
    exact starts_of_startTag? (startTag?_startElement ..) hn
  have hquiet : ∀ v ∈ extentErrors attributes content.tags, v.level ≠ .error := by
    intro v hv hlevel
    obtain ⟨f, outer, hframes, -, hf⟩ := s.exists_frame_run ⟨locator, "extent", attributes⟩ content
    have hkept : f.kept = content.tags.foldl Kept.note (s.frameOf ⟨locator, "extent", attributes⟩).kept := by
      rw [← Frame.kept_tell, ← hf]
      rfl
    have hmem : .violation v locator' ∈ (s.run (.startElement locator xhtml "extent" attributes ::
        content.events)).notices (.endElement locator' xhtml "extent") := by
      rw [run_cons, next_start s ⟨locator, "extent", attributes⟩, notices_endElement hframes]
      refine List.mem_append_left _ ?_
      simp only [elementNotices, ↓reduceIte, String.reduceEq]
      rw [extentNotices_eq content.tags _ s rfl hkept]
      exact List.mem_append_left _ (List.mem_map.2 ⟨v, hv, rfl⟩)
    have hno := hend _ hmem
    rw [Notice.isError, hlevel] at hno
    exact Bool.noConfusion hno
  obtain ⟨hzoom, hlocation, hcomplete⟩ := any_of_extentErrors hquiet
  exact ⟨hzoom, hlocation, givesSystem_eq hcomplete haxis⟩

/-- Inputs for the zoom level and for both axes of `gcrs`, one of which has a position and other units. -/
def latitudeAndLongitude : Forest :=
  .onLine 2 "input" [("type", "zoom")] .nil <|
  .onLine 3 "input" [("type", "location"), ("units", "gcrs"), ("axis", "latitude")] .nil <|
  .onLine 4 "input" [("type", "location"), ("units", "utm"), ("axis", "longitude"), ("position", "top-left")] .nil .nil

theorem givesSystem_of_clean_latitudeAndLongitude :
    latitudeAndLongitude.tags.any (·.isInputOf "zoom") ∧ latitudeAndLongitude.tags.any (·.givesAxis) ∧
      givesSystem latitudeAndLongitude.tags = true := by
  obtain ⟨hzoom, hlocation, hsystem⟩ := givesSystem_of_clean {} ⟨1, 9, none, none⟩ ⟨5, 10, none, none⟩ []
    latitudeAndLongitude (by decide +kernel) (by decide +kernel)
  exact ⟨hzoom, hlocation, hsystem.trans (by decide +kernel)⟩

/-- An input for the zoom level, and one with units that the table does not have. -/
def otherUnits : Forest :=
  .onLine 2 "input" [("type", "zoom")] .nil <|
  .onLine 3 "input" [("type", "location"), ("units", "utm"), ("axis", "e")] .nil .nil

/-- Nothing is wrong with an `extent` that gives no coordinate system of the table, since its units are none of the
table. -/
theorem not_givesSystem_of_otherUnits :
    (∀ e ∈ (({} : State).start ⟨⟨1, 9, none, none⟩, "extent", []⟩).journal [] otherUnits.events,
      e.opened = [] → e.event.starts "input" → e.notices = []) ∧
    (({} : State).run (.startElement ⟨1, 9, none, none⟩ xhtml "extent" [] :: otherUnits.events)).notices
      (.endElement ⟨4, 10, none, none⟩ xhtml "extent") = [] ∧
    givesSystem otherUnits.tags = false := by
  decide +kernel

end State

end MapMarkup.Rules
