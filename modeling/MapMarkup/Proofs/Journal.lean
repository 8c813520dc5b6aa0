import MapMarkup.Proofs.Frames
import MapMarkup.Proofs.Registration
import MapMarkup.Proofs.StartNotices

/-!
# Which event says what

Each violation is said at one kind of event: at the start tag or the end tag of the element that it is about, or at the
end of the document (`State.isSaidAt_of_mem`). So a rule is known if it is known what its own events say.

The journal of a run has an entry for each event, with the elements that are open around the event and with what the
event makes the rules say.
-/

namespace MapMarkup

open Vocabulary (prohibitedAncestors xhtml)

namespace Rules

/-- The places of a violation among some notices, in order. -/
def placesOf (v : Violation) (notices : List Notice) : List Locator :=
  notices.filterMap fun
    | .violation v' locator => if v' = v then some locator else none
    | .styleAttribute .. | .stylesheet .. => none

theorem placesOf_append (v : Violation) (ns ns' : List Notice) :
    placesOf v (ns ++ ns') = placesOf v ns ++ placesOf v ns' :=
  List.filterMap_append

private theorem mem_placesOf {v : Violation} {locator : Locator} {notices : List Notice} :
    locator ∈ placesOf v notices ↔ .violation v locator ∈ notices := by
  unfold placesOf
  rw [List.mem_filterMap]
  constructor
  · rintro ⟨n, hn, hplace⟩
    cases n with
    | violation v' locator' =>
      obtain ⟨rfl, hlocator⟩ := Option.ite_none_right_eq_some.1 hplace
      rwa [← Option.some.inj hlocator]
    | styleAttribute | stylesheet => simp at hplace
  · intro h
    exact ⟨_, h, if_pos rfl⟩

theorem placesOf_eq_nil_iff {v : Violation} {notices : List Notice} :
    placesOf v notices = [] ↔ ∀ locator, .violation v locator ∉ notices := by
  rw [List.eq_nil_iff_forall_not_mem]
  simp only [mem_placesOf]

theorem placesOf_map (v v' : Violation) (locators : List Locator) :
    placesOf v (locators.map (.violation v' ·)) = if v' = v then locators else [] := by
  unfold placesOf
  rw [List.filterMap_map]
  show locators.filterMap (fun locator => if v' = v then some locator else none) = _
  split
  · exact List.filterMap_some
  · simp

theorem placesOf_noticeIf (t : StartTag) (violated : Bool) (v v' : Violation) :
    placesOf v (noticeIf t violated v') = if violated && v' = v then [t.locator] else [] := by
  cases violated with
  | false => rfl
  | true => by_cases h : v' = v <;> simp [noticeIf, placesOf, h]

end Rules

/-! ### The events of each rule -/

namespace Event

/-- Whether an event is the start of an element of the vocabulary with the given name. -/
def starts (name : String) (e : Event) : Bool :=
  (Rules.startTag? e).any (·.name = name)

/-- Whether an event is the end of an element of the vocabulary with the given name. -/
def ends (name : String) : Event → Bool
  | endElement _ uri name' => uri = xhtml && name' = name
  | _ => false

/-- Whether an event is the end of an element. -/
def isEnd : Event → Bool
  | endElement .. => true
  | _ => false

end Event

/-- Whether an event is of the kind at which the violation is said. -/
def Violation.isSaidAt (v : Violation) (e : Event) : Bool :=
  match v with
  | prohibitedAncestor element _ | redundantElementRole _ element => e.starts element
  | impliedState _ => (Rules.startTag? e).isSome
  | inputOutsideExtent | attributeOfOtherInputs _ _ | redundantInputRole _ _ | axisMissing | axisOfOtherUnits _ _ _
  | relOfTileMatrix | shardWithoutList | shardWithValue => e.starts "input"
  | secondSelectedOption => e.starts "option"
  | secondQueryLink | trefOutsideExtent | trefWithHref | hrefInExtent | projectionWithoutAlternate | linkInBody =>
    e.starts "link"
  | requiredSelectWithoutOption | requiredSelectWithoutPlaceholder => e.ends "select"
  | extentWithoutZoom | extentWithoutLocation | extentWithoutAxisPair | extentActionWithTemplates
  | unboundVariable _ => e.ends "extent"
  | activeDescendantElsewhere => e.isEnd
  | severalSelfStyles | labelForNoControl | formOfNoForm | listOfNoDatalist => e = .endDocument

/-- Whether a violation is one of the rules on links or of the one on options. -/
def Violation.isOfLinkOrOption : Violation → Bool
  | secondSelectedOption | secondQueryLink | trefOutsideExtent | trefWithHref | hrefInExtent
  | projectionWithoutAlternate | linkInBody => true
  | _ => false

namespace Rules

theorem starts_of_startTag? {e : Event} {t : StartTag} (h : startTag? e = some t) {name : String}
    (hn : t.name = name) : e.starts name := by
  rw [Event.starts, h]
  exact decide_eq_true hn

private theorem isSaidAt_of_maySay {e : Event} {t : StartTag} (h : startTag? e = some t) {v : Violation}
    {locator : Locator}
    (hsay : t.MaySay (.violation v locator)) : v.isSaidAt e := by
  cases hsay with
  | state name ha => exact Option.isSome_of_eq_some h
  | elementRole role => exact starts_of_startTag? h rfl
  | attr _ _ hn | inputRole _ _ hn | axis _ _ _ hn | option hn => exact starts_of_startTag? h hn
  | input v hn hv =>
    simp only [List.mem_cons, List.not_mem_nil, or_false] at hv
    rcases hv with rfl | rfl | rfl | rfl <;> exact starts_of_startTag? h hn
  | link v hn hv =>
    simp only [List.mem_cons, List.not_mem_nil, or_false] at hv
    rcases hv with rfl | rfl | rfl | rfl | rfl | rfl <;> exact starts_of_startTag? h hn

private theorem isSaidAt_of_mem_startNotices {s : State} {e : Event} {t : StartTag} (h : startTag? e = some t)
    {v : Violation}
    {locator : Locator} (hv : .violation v locator ∈ s.startNotices t) : v.isSaidAt e := by
  rw [State.startNotices_eq, List.mem_append, List.mem_append, List.mem_map] at hv
  rcases hv with (⟨a, -, ha⟩ | hv) | hv
  · obtain ⟨rfl, -⟩ := Notice.violation.inj ha
    exact starts_of_startTag? h rfl
  · obtain ⟨houtside, hinput⟩ := StartTag.mem_noticeIf.1 hv
    obtain ⟨rfl, -⟩ := Notice.violation.inj hinput
    rw [Bool.and_eq_true, decide_eq_true_eq] at houtside
    exact starts_of_startTag? h houtside.1
  · exact isSaidAt_of_maySay h (State.maySay_of_mem_remarks hv)

theorem mem_selectNotices {f : Frame} {locator : Locator} {n : Notice} (h : n ∈ selectNotices f locator) :
    ∃ v place, n = .violation v place ∧ v ∈ [.requiredSelectWithoutOption, .requiredSelectWithoutPlaceholder] := by
  unfold selectNotices at h
  grind

theorem mem_extentNotices {s : State} {f : Frame} {locator : Locator} {n : Notice} (h : n ∈ extentNotices s f locator) :
    ∃ v place, n = .violation v place ∧
      (v ∈ [.extentWithoutZoom, .extentWithoutLocation, .extentWithoutAxisPair, .extentActionWithTemplates] ∨
        ∃ name, v = .unboundVariable name) := by
  unfold extentNotices at h
  grind

namespace State

private theorem isSaidAt_of_mem_elementNotices {s : State} {f : Frame} {locator locator' place : Locator}
    {name : String}
    {v : Violation} (h : .violation v place ∈ s.elementNotices f locator name) :
    v.isSaidAt (.endElement locator' xhtml name) := by
  unfold elementNotices at h
  split at h
  · rename_i hn
    obtain ⟨v', place', hv, hmem⟩ := mem_selectNotices h
    obtain ⟨rfl, -⟩ := Notice.violation.inj hv
    simp only [List.mem_cons, List.not_mem_nil, or_false] at hmem
    rcases hmem with rfl | rfl <;> simp [Violation.isSaidAt, Event.ends, hn]
  split at h
  · unfold styleNotices at h
    dsimp only at h
    split at h
    · split at h <;> simp at h
    · split at h <;> simp at h
  split at h
  · rename_i hn
    obtain ⟨v', place', hv, hmem⟩ := mem_extentNotices h
    obtain ⟨rfl, -⟩ := Notice.violation.inj hv
    simp only [List.mem_cons, List.not_mem_nil, or_false] at hmem
    rcases hmem with (rfl | rfl | rfl | rfl) | ⟨name', rfl⟩ <;> simp [Violation.isSaidAt, Event.ends, hn]
  · simp at h

private theorem isSaidAt_of_mem_documentNotices {s : State} {v : Violation} {place : Locator}
    (h : .violation v place ∈ s.documentNotices) : v.isSaidAt .endDocument := by
  unfold documentNotices at h
  simp only [List.mem_append, List.mem_map, Notice.violation.injEq] at h
  rcases h with ((h | ⟨r, -, rfl, -⟩) | ⟨r, -, rfl, -⟩) | ⟨r, -, rfl, -⟩
  · split at h
    · obtain ⟨locator, -, hv⟩ := List.mem_map.1 h
      obtain ⟨rfl, -⟩ := Notice.violation.inj hv
      rfl
    · simp at h
  · rfl
  · rfl
  · rfl

/-- A violation is said at an event of its kind only. -/
theorem isSaidAt_of_mem {s : State} {e : Event} {v : Violation} {place : Locator}
    (h : .violation v place ∈ s.notices e) : v.isSaidAt e := by
  cases e with
  | startElement locator uri name attributes =>
    by_cases hu : uri = xhtml
    · subst hu
      rw [notices_start s ⟨locator, name, attributes⟩] at h
      exact isSaidAt_of_mem_startNotices (startTag?_startElement locator name attributes) h
    · simp [notices, hu] at h
  | endElement locator uri name =>
    rcases hf : s.frames with _ | ⟨f, outer⟩
    · simp [notices, hf] at h
    · simp only [notices, hf, endNotices, List.mem_append, List.mem_map, Notice.violation.injEq] at h
      rcases h with h | ⟨locator', -, rfl, -⟩
      · split at h
        · rename_i hu
          rw [hu]
          exact isSaidAt_of_mem_elementNotices h
        · simp at h
      · rfl
  | endDocument => exact isSaidAt_of_mem_documentNotices h
  | startDocument | reset | characters | sourceIsCss => simp [notices] at h

theorem placesOf_notices_eq_nil {v : Violation} {e : Event} (h : v.isSaidAt e = false) (s : State) :
    placesOf v (s.notices e) = [] := by
  rw [placesOf_eq_nil_iff]
  intro locator hmem
  rw [isSaidAt_of_mem hmem] at h
  exact Bool.noConfusion h

/-- What is said at start tags only is among what is said about the tag. -/
theorem placesOf_notices_of_startTag {v : Violation} (hv : ∀ e, startTag? e = none → v.isSaidAt e = false) (s : State)
    (e : Event) :
    placesOf v (s.notices e) = (startTag? e).toList.flatMap fun t => placesOf v (s.startNotices t) := by
  cases ht : startTag? e with
  | none => rw [placesOf_notices_eq_nil (hv e ht), Option.toList_none, List.flatMap_nil]
  | some t =>
    cases e with
    | startElement locator uri name attributes =>
      by_cases hu : uri = xhtml
      · subst hu
        obtain rfl := Option.some.inj ((startTag?_startElement locator name attributes).symm.trans ht)
        rw [notices_start s ⟨locator, name, attributes⟩, Option.toList_some, List.flatMap_singleton]
      · simp [startTag?, hu] at ht
    | startDocument | endDocument | reset | endElement | characters | sourceIsCss => simp [startTag?] at ht

/-- The rules on links and the one on options are the only ones that say their violations. -/
theorem placesOf_startNotices (s : State) (t : StartTag) {v : Violation} (hv : v.isOfLinkOrOption) :
    placesOf v (s.startNotices t) =
      placesOf v (if t.name = "link" then linkNotices s t else []) ++ placesOf v (optionNotices s t) := by
  have hrest : placesOf v (((prohibitedAncestors t.name).filter s.ancestors.has).map
      (fun a => .violation (.prohibitedAncestor t.name a.name) t.locator) ++
      noticeIf t (t.name = "input" && !s.ancestors.extent) .inputOutsideExtent ++
      t.attributes.flatMap t.attributeNotices ++ t.roleNotices ++ t.inputNotices) = [] := by
    rw [placesOf_eq_nil_iff]
    intro locator
    have hattributes (a : Attribute) : .violation v locator ∉ t.attributeNotices a := by
      unfold StartTag.attributeNotices StartTag.inputTypeNotices StartTag.stateNotices
      grind [Violation.isOfLinkOrOption]
    have hrole : .violation v locator ∉ t.roleNotices := by
      unfold StartTag.roleNotices
      grind [Violation.isOfLinkOrOption]
    have hinput : .violation v locator ∉ t.inputNotices := by
      unfold StartTag.inputNotices StartTag.locationNotices StartTag.axisNotices StartTag.shardNotices
      grind [Violation.isOfLinkOrOption]
    simp only [List.mem_append, List.mem_map, List.mem_flatMap, StartTag.mem_noticeIf]
    grind [Violation.isOfLinkOrOption]
  rw [startNotices, placesOf_append, placesOf_append, hrest, List.nil_append]

/-- What the end of an element says is what its name gives rise to, and whether its active descendant is missing. -/
theorem notices_endElement {s : State} {f : Frame} {outer : List Frame} (h : s.frames = f :: outer) (locator : Locator)
    (uri name : String) :
    s.notices (.endElement locator uri name) = (if uri = xhtml then s.elementNotices f locator name else []) ++
      (s.pendingDescendants.lookup outer.length).toList.map (.violation .activeDescendantElsewhere ·) := by
  simp only [notices, h, endNotices]

end State

/-! ### Journals -/

/-- What happened at one event. -/
structure Entry where
  /-- The elements that have started since the journal was begun and have not ended, innermost first. -/
  opened : List ElementName
  event : Event
  notices : List Notice
deriving Repr

/-- The journal of some events; `opened` are the elements that have been open in front of them. -/
def State.journal (s : State) (opened : List ElementName) : List Event → List Entry
  | [] => []
  | e :: events => ⟨opened, e, s.notices e⟩ :: (s.next e).journal (Event.track opened e) events

theorem State.journal_append (s : State) (opened : List ElementName) (es fs : List Event) :
    s.journal opened (es ++ fs) = s.journal opened es ++ (s.run es).journal (Event.trackAll opened es) fs := by
  induction es generalizing s opened with
  | nil => rfl
  | cons e es ih => rw [List.cons_append, journal, ih, journal, List.cons_append]; rfl

theorem State.journal_concat (s : State) (opened : List ElementName) (events : List Event) (e : Event) :
    s.journal opened (events ++ [e]) =
      s.journal opened events ++ [⟨Event.trackAll opened events, e, (s.run events).notices e⟩] :=
  s.journal_append opened events [e]

end Rules

end MapMarkup
