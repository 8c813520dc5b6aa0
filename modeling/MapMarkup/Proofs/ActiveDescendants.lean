import Mathlib.Data.List.Induction
import MapMarkup.Proofs.DocumentReferences
import MapMarkup.Proofs.Forest
import MapMarkup.Proofs.Journal
import MapMarkup.Proofs.OpenRecords

/-!
# Active descendants

An element that names its active descendant waits for it under its depth. While the element is open, only a start tag
with the ID that it names can make it cease to (`State.lookup_pendingDescendants_next`), and one tag may do so for any
number of elements. So the end of an element says that its active descendant is missing if, and only if, the element
has named one, does not own elements elsewhere, and no tag inside it has had this ID
(`State.placesOf_activeDescendantElsewhere`).
-/

namespace MapMarkup.Rules

open Event (NestsTo trackAll)
open Vocabulary

/-- Whether the attributes name an active descendant, and do not name elements that are owned, and none of the tags
inside the element has the ID. -/
def missesDescendant (attributes : Attributes) (inside : List StartTag) : Bool :=
  !attributes.has "" "aria-owns" &&
    (attributes.get? "" "aria-activedescendant").any fun id => inside.all fun t => !t.attributes.ids.contains id

theorem StartTag.get?_eq_last? {t : StartTag} (h : t.attributes.Distinct) (key : String) : t.get? key = t.last? key := by
  have hvalues : (t.get? key).toList = (t.last? key).toList := by rw [← values_eq_get? h, values_eq_last? h]
  simpa using congrArg List.head? hvalues

/-- A record is found as before unless all those under the key are left out. -/
private theorem lookup_filter_key {α : Type} (keep : Nat → Bool) (key : Nat) (records : List (Nat × α)) :
    (records.filter (keep ·.1)).lookup key = if keep key then records.lookup key else none := by
  induction records with
  | nil => simp
  | cons r records ih =>
    obtain ⟨key', a⟩ := r
    rw [List.filter_cons, List.lookup_cons]
    by_cases hr : key = key'
    · subst hr
      cases hkeep : keep key with
      | false => simpa [hkeep] using ih
      | true => simp
    · have hne : (key == key') = false := beq_false_of_ne hr
      cases keep key' with
      | false => simpa [hne] using ih
      | true => simpa [List.lookup_cons, hne] using ih

namespace State

variable {s : State} {depth : Nat}

/-! ### Elements that stay open -/

/-- Properly nested events end only elements that have started among them. -/
theorem holdsOpen_of_nestsTo {outer opened : List ElementName} {events : List Event}
    (hs : s.frames.map (·.name) = outer.map knownName) (h : NestsTo [] events opened) (hdepth : depth < s.depth) :
    s.HoldsOpen depth events := by
  rintro past ⟨rest, rfl⟩
  obtain ⟨between, hpast, -⟩ := h.of_append
  have hframes := congrArg List.length (names_run hs past)
  have htrack : trackAll outer past = between ++ outer := (hpast.append_outer outer).trackAll_eq
  have houter := congrArg List.length hs
  simp only [List.length_map, htrack, List.length_append] at hframes houter
  show depth < (s.run past).frames.length
  have hopen : depth < s.frames.length := hdepth
  omega

private theorem isSettledBy_eq_of_bare {s' : State}
    (h : (s'.frameAt? depth).map Frame.bare = (s.frameAt? depth).map Frame.bare)
    (ids : List String) : s'.isSettledBy ids depth = s.isSettledBy ids depth := by
  have hbare (s : State) : s.isSettledBy ids depth =
      (((s.frameAt? depth).map Frame.bare).bind (·.activeDescendant)).any ids.contains := by
    rw [isSettledBy]
    cases s.frameAt? depth <;> rfl
  rw [hbare, h, hbare]

/-! ### Elements that wait -/

/-- Nothing waits under the depth of an element that starts now. -/
private theorem lookup_pendingDescendants_depth (hs : ∀ r ∈ s.pendingDescendants, r.1 < s.depth) :
    s.pendingDescendants.lookup s.depth = none := by
  rw [List.lookup_eq_none_iff]
  intro r hr
  simpa using Nat.ne_of_gt (hs r hr)

/-- What is left under a depth of those that wait when a tag with the IDs comes. -/
private theorem lookup_filter_isSettledBy (s : State) (ids : List String) (depth : Nat) :
    (s.pendingDescendants.filter fun (depth, _) => !s.isSettledBy ids depth).lookup depth =
      if s.isSettledBy ids depth then none else s.pendingDescendants.lookup depth := by
  refine (lookup_filter_key (fun depth => !s.isSettledBy ids depth) depth _).trans ?_
  cases s.isSettledBy ids depth <;> rfl

/-- An element waits if its own tag says so. -/
private theorem lookup_pendingDescendants_start (hs : ∀ r ∈ s.pendingDescendants, r.1 < s.depth) (t : StartTag) :
    (s.start t).pendingDescendants.lookup s.depth =
      if (t.last? "aria-activedescendant").isSome && !t.has "aria-owns" then some t.locator else none := by
  show (s.pendingDescendantsAfter t).lookup s.depth = _
  unfold pendingDescendantsAfter
  dsimp only
  split
  · rw [List.lookup_cons_self]
  · rw [lookup_filter_isSettledBy, lookup_pendingDescendants_depth hs, ite_self]

/-- While an element is open it waits until a tag inside has the ID that it names. -/
theorem lookup_pendingDescendants_next (h : depth < s.depth) {e : Event} (h' : depth < (s.next e).depth)
    (hreset : .reset ≠ e) :
    (s.next e).pendingDescendants.lookup depth =
      if (startTag? e).any fun t => s.isSettledBy t.attributes.ids depth then none
      else s.pendingDescendants.lookup depth := by
  cases e with
  | startDocument | endDocument => exact absurd h' (Nat.not_lt_zero depth)
  | reset => exact absurd rfl hreset
  | characters | sourceIsCss => rfl
  | startElement locator uri name attributes =>
    by_cases hu : uri = xhtml
    · subst hu
      have hne : (depth == s.depth) = false := beq_false_of_ne (Nat.ne_of_lt h)
      rw [next_start s ⟨locator, name, attributes⟩, startTag?_startElement]
      show (s.pendingDescendantsAfter _).lookup depth = _
      unfold pendingDescendantsAfter
      dsimp only
      split
      · rw [List.lookup_cons, hne, lookup_filter_key (· ≠ s.depth), if_pos (by simpa using Nat.ne_of_lt h),
          lookup_filter_isSettledBy]
        rfl
      · exact s.lookup_filter_isSettledBy attributes.ids depth
    · have htag : startTag? (.startElement locator uri name attributes) = none := by simp [startTag?, hu]
      rw [next_startOther s locator name attributes hu, htag]
      rfl
  | endElement locator uri name =>
    rcases hframes : s.frames with _ | ⟨f, outer⟩
    · rw [next_end_nil hframes]
      rfl
    · rw [depth_next_endElement, State.depth, hframes] at h'
      have hkeep := lookup_filter_key (· ≠ outer.length) depth s.pendingDescendants
      rw [if_pos (by simpa using Nat.ne_of_lt h')] at hkeep
      rw [next_end_cons hframes]
      exact hkeep

private theorem lookup_pendingDescendants_run {events : List Event} (h : s.HoldsOpen depth events)
    (hreset : .reset ∉ events) :
    (s.run events).pendingDescendants.lookup depth =
      if (startTags events).any fun t => s.isSettledBy t.attributes.ids depth then none
      else s.pendingDescendants.lookup depth := by
  induction events using List.reverseRecOn with
  | nil => rfl
  | append_singleton events e ih =>
    obtain ⟨hbefore, hafter⟩ := holdsOpen_concat_iff.1 h
    rw [List.mem_append, List.mem_singleton, not_or] at hreset
    have hopen : depth < (s.run events).depth := hbefore events (List.prefix_refl _)
    have hsettled (t : StartTag) : (s.run events).isSettledBy t.attributes.ids depth =
        s.isSettledBy t.attributes.ids depth := isSettledBy_eq_of_bare hbefore.bare_frameAt?_run _
    have hlast (P : StartTag → Bool) : (startTags [e]).any P = (startTag? e).any P := by
      cases htag : startTag? e <;> simp [startTags, htag]
    rw [run_append, run_cons, run_nil, lookup_pendingDescendants_next hopen hafter hreset.2, ih hbefore hreset.1,
      startTags_append, List.any_append, hlast]
    simp only [hsettled]
    generalize (startTag? e).any _ = now
    generalize (startTags events).any _ = earlier
    cases now <;> cases earlier <;> rfl

/-! ### What the end of the element says -/

private theorem placesOf_elementNotices (s : State) (f : Frame) (locator : Locator) (name : String) :
    placesOf .activeDescendantElsewhere (s.elementNotices f locator name) = [] := by
  rw [placesOf_eq_nil_iff]
  intro place h
  unfold elementNotices at h
  split at h
  · obtain ⟨v, _, hv, hmem⟩ := mem_selectNotices h
    obtain ⟨rfl, -⟩ := Notice.violation.inj hv
    simp at hmem
  split at h
  · unfold styleNotices at h
    grind
  split at h
  · obtain ⟨v, _, hv, hmem⟩ := mem_extentNotices h
    obtain ⟨rfl, -⟩ := Notice.violation.inj hv
    simp at hmem
  · simp at h

/-- Whether an element still waits behind its content. -/
private theorem lookup_pendingDescendants_content (hs : ∀ r ∈ s.pendingDescendants, r.1 < s.depth) {t : StartTag}
    (hd : t.attributes.Distinct) {content : List Event} (h : (s.start t).HoldsOpen s.depth content)
    (hreset : .reset ∉ content) :
    ((s.start t).run content).pendingDescendants.lookup s.depth =
      if missesDescendant t.attributes (startTags content) then some t.locator else none := by
  have hget : t.attributes.get? "" "aria-activedescendant" = t.last? "aria-activedescendant" :=
    StartTag.get?_eq_last? hd _
  have hhas : t.attributes.has "" "aria-owns" = t.has "aria-owns" := rfl
  have hsettled (ids : List String) :
      (s.start t).isSettledBy ids s.depth = (t.last? "aria-activedescendant").any ids.contains := by
    rw [isSettledBy, frameAt?_start]
    rfl
  rw [lookup_pendingDescendants_run h hreset, lookup_pendingDescendants_start hs, missesDescendant, hget, hhas]
  simp only [hsettled]
  cases t.last? "aria-activedescendant" with
  | none => simp
  | some id =>
    have hall : ((startTags content).all fun u => !u.attributes.ids.contains id) =
        !(startTags content).any fun u => u.attributes.ids.contains id := by simp [List.all_eq_not_any_not]
    rw [Option.any_some, hall]
    simp only [Option.any_some, Option.isSome_some, Bool.true_and]
    generalize (startTags content).any _ = settled
    cases settled <;> cases t.has "aria-owns" <;> rfl

/-- The end of an element says that its active descendant is missing, once and at the place of its start tag, if the
element is one of the vocabulary that names an active descendant without owning elements, and no element of the
vocabulary inside it has the ID. Otherwise it does not say so. -/
theorem placesOf_activeDescendantElsewhere (sourceIsCss : Bool) (past : List Event) (locator locator' : Locator)
    (uri name : String) (attributes : Attributes) (hd : attributes.Distinct) (content : Forest)
    (hreset : .reset ∉ content.events) :
    let reached := ({ sourceIsCss } : State).run (past ++ .startElement locator uri name attributes :: content.events)
    placesOf .activeDescendantElsewhere (reached.notices (.endElement locator' uri name)) =
      if uri = xhtml ∧ missesDescendant attributes (startTags content.events) then [locator] else [] := by
  intro reached
  let new : State := { sourceIsCss }
  let s := new.run past
  have hreached : reached = (s.next (.startElement locator uri name attributes)).run content.events := new.run_append ..
  have hpast : s.frames.map (·.name) = (trackAll [] past).map knownName := names_run rfl past
  have hnames := names_next hpast (.startElement locator uri name attributes)
  have hbelow : ∀ r ∈ s.pendingDescendants, r.1 < s.depth :=
    Recording.lawful_pendingDescendants.depthOf_lt sourceIsCss past
  have hopen : (s.next (.startElement locator uri name attributes)).HoldsOpen s.depth content.events := by
    refine holdsOpen_of_nestsTo hnames content.nestsTo_events ?_
    rw [depth_next_startElement]
    exact Nat.lt_succ_self _
  -- The element is the innermost one when its end comes.
  have hinnermost : reached.frames.map (·.name) = ((uri, name) :: trackAll [] past).map knownName := by
    rw [hreached, names_run hnames, content.trackAll_events]
    rfl
  obtain ⟨f, outer, hframes, -, houter⟩ := List.map_eq_cons_iff.1 hinnermost
  have hlength : outer.length = s.depth := by
    show outer.length = s.frames.length
    simpa using congrArg List.length (houter.trans hpast.symm)
  have helement : placesOf .activeDescendantElsewhere
      (if uri = xhtml then reached.elementNotices f locator' name else []) = [] := by
    split
    · exact reached.placesOf_elementNotices f locator' name
    · rfl
  rw [notices_endElement hframes, placesOf_append, helement, List.nil_append, placesOf_map, if_pos rfl, hlength, hreached]
  by_cases hu : uri = xhtml
  · subst hu
    have hlookup := lookup_pendingDescendants_content hbelow (t := ⟨locator, name, attributes⟩) hd hopen hreset
    rw [next_start s ⟨locator, name, attributes⟩, hlookup]
    simp only [true_and]
    split
    · rfl
    · rfl
  · rw [lookup_pendingDescendants_run hopen hreset, next_startOther s locator name attributes hu]
    have hnone : (s.startOther locator).pendingDescendants.lookup s.depth = none :=
      lookup_pendingDescendants_depth hbelow
    rw [hnone, ite_self, if_neg fun h => hu h.1]
    rfl

/-- Elements with IDs inside and outside a list, one with a foreign tag, and one that has its ID by another attribute and
an attribute for IDs without a value. -/
def listsOfOptions : Forest :=
  .onLine 3 "div" [("aria-activedescendant", "b")] (.onLine 4 "p" [("id", "a")] .nil .nil) <|
  .element ⟨5, 40, none, none⟩ ⟨6, 50, none, none⟩ "" "p" (.ofPairs [("id", "c")])
    (.onLine 6 "p" [("id", "b")] .nil .nil) <|
  .element ⟨7, 40, none, none⟩ ⟨7, 50, none, none⟩ xhtml "p" [⟨"u", "key", "e", true⟩, ⟨"", "id", "", false⟩] .nil .nil

theorem placesOf_activeDescendantElsewhere_listsOfOptions :
    let said (id : String) := (({} : State).run ([.startDocument] ++
      .startElement ⟨2, 9, none, none⟩ xhtml "div" (.ofPairs [("id", "d"), ("aria-activedescendant", id)]) ::
        listsOfOptions.events)).notices (.endElement ⟨8, 9, none, none⟩ xhtml "div")
    (∀ id ∈ ["b", "e"], placesOf .activeDescendantElsewhere (said id) = []) ∧
    ∀ id ∈ ["c", "d", ""], placesOf .activeDescendantElsewhere (said id) = [⟨2, 9, none, none⟩] := by
  intro said
  have hsaid (id : String) := placesOf_activeDescendantElsewhere false [.startDocument] ⟨2, 9, none, none⟩
    ⟨8, 9, none, none⟩ xhtml "div" (.ofPairs [("id", "d"), ("aria-activedescendant", id)])
    (by simp [Attributes.Distinct, Attributes.ofPairs]) listsOfOptions (by decide +kernel)
  exact ⟨fun id hid => (hsaid id).trans (by revert id; decide +kernel),
    fun id hid => (hsaid id).trans (by revert id; decide +kernel)⟩

end State

end MapMarkup.Rules
