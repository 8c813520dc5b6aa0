import Mathlib.Data.List.Induction
import MapMarkup.Proofs.Children
import MapMarkup.Proofs.Journal
import MapMarkup.Proofs.OpenRecords
import MapMarkup.Proofs.Words

/-!
# Query links

An `extent` should have one query link at most, a child `link` with the relation `query`. Its frame notes that there is
one when the first one starts, so that each further one is told to be one too many. Only the frame of an `extent` has
this note (`State.ofExtent_run`), and what stands inside a child does not reach the frame, whatever it is.

So of the query links of an `extent` each but the first is said to be one too many, at its own place, and of no other
link anything of the kind is said (`State.placesOf_secondQueryLink`).
-/

namespace MapMarkup.Rules

open Event (NestsTo trackAll)
open Vocabulary

/-- Whether the tag is that of a link with the relation `query`, in whichever case. -/
def StartTag.queries (t : StartTag) : Bool :=
  t.name = "link" && (t.get? "rel").any fun rel => (Text.words rel).any (Text.sameIgnoringCase · "query")

private theorem StartTag.isQueryLink_eq (t : StartTag) : t.isQueryLink = t.queries := by
  have hquery : ("query" : String).toLower = "query" := by decide +kernel
  rw [queries, isQueryLink, hasRelation, relations]
  cases t.get? "rel" with
  | none => rfl
  | some rel =>
    dsimp only [Option.any_some]
    rw [Text.words_toLower, List.contains_eq_any_beq, List.any_map]
    simp only [Function.comp_def, Text.sameIgnoringCase, hquery, Bool.beq_comm (a := "query")]

/-- The entries of a journal in front of which nothing is open that has started since it was begun. -/
def childEntries (journal : List Entry) : List Entry :=
  journal.filter (·.opened.isEmpty)

namespace State

/-! ### What is said at a start tag -/

/-- Whether the parent of an element that starts now has noted a query link. -/
def hasQueryLink (s : State) : Bool :=
  s.parent?.any (·.extent.queryFound)

private theorem placesOf_startNotices_secondQueryLink (s : State) (t : StartTag) :
    placesOf .secondQueryLink (s.startNotices t) = if t.queries && s.hasQueryLink then [t.locator] else [] := by
  have hoption : placesOf .secondQueryLink (optionNotices s t) = [] := by
    rw [placesOf_eq_nil_iff]
    unfold optionNotices
    grind
  have hlink : placesOf .secondQueryLink (linkNotices s t) =
      if t.hasRelation "query" && s.hasQueryLink then [t.locator] else [] := by
    simp only [linkNotices, placesOf_append, placesOf_noticeIf, hasQueryLink]
    simp
  rw [placesOf_startNotices s t rfl, hoption, List.append_nil, ← t.isQueryLink_eq, StartTag.isQueryLink]
  by_cases hn : t.name = "link"
  · simp only [hn, hlink, ↓reduceIte, decide_true, Bool.true_and]
  · simp [hn, placesOf]

/-- A link is said to be one too many if it is a query link and its parent has noted one. -/
private theorem placesOf_notices_secondQueryLink (s : State) (e : Event) :
    placesOf .secondQueryLink (s.notices e) =
      if s.hasQueryLink then ((startTag? e).toList.filter (·.queries)).map (·.locator) else [] := by
  have hsaid (e : Event) (he : startTag? e = none) : Violation.secondQueryLink.isSaidAt e = false := by
    simp [Violation.isSaidAt, Event.starts, he]
  rw [placesOf_notices_of_startTag hsaid]
  cases startTag? e with
  | none => simp
  | some t =>
    rw [Option.toList_some, List.flatMap_singleton, placesOf_startNotices_secondQueryLink]
    cases hquery : t.queries <;> cases s.hasQueryLink <;> simp [hquery]

end State

/-! ### Who notes query links -/

/-- A query link is noted for an `extent` only. -/
def Kept.OfExtent (k : Kept) : Prop :=
  k.2.queryFound → k.1 = some "extent"

private theorem Kept.OfExtent.note {k : Kept} (hk : k.OfExtent) (t : StartTag) : (k.note t).OfExtent := by
  intro hfound
  rcases Bool.or_eq_true_iff.1 hfound with h | h
  · exact hk h
  · exact of_decide_eq_true (Bool.and_eq_true_iff.1 h).1

namespace State

private theorem ofExtent_next {s : State} (hs : ∀ k ∈ s.frames.map Frame.kept, k.OfExtent) (e : Event) :
    ∀ k ∈ (s.next e).frames.map Frame.kept, k.OfExtent := by
  cases e with
  | startDocument | endDocument => simp [next, clear]
  | reset | sourceIsCss => exact hs
  | characters text =>
    have hframes : (s.next (.characters text)).frames.map Frame.kept = s.frames.map Frame.kept :=
      map_modifyHead_of_eq (fun f => f.kept_collect text) s.frames
    rwa [hframes]
  | startElement locator uri name attributes =>
    by_cases hu : uri = xhtml
    · subst hu
      show ∀ k ∈ (s.framesAfter ⟨locator, name, attributes⟩).map Frame.kept, k.OfExtent
      rw [s.map_framesAfter (fun _ => rfl) (Kept.note · _) (Frame.kept_noteChild _), kept_frameOf]
      refine List.forall_mem_cons.2 ⟨by simp [Kept.OfExtent], ?_⟩
      cases hframes : s.frames.map Frame.kept with
      | nil => simp
      | cons k outer =>
        rw [hframes, List.forall_mem_cons] at hs
        exact List.forall_mem_cons.2 ⟨hs.1.note _, hs.2⟩
    · rw [next_startOther s locator name attributes hu]
      exact List.forall_mem_cons.2 ⟨by simp [Kept.OfExtent, Frame.kept], hs⟩
  | endElement locator uri name =>
    rcases hf : s.frames with _ | ⟨f, outer⟩
    · rwa [next_end_nil hf]
    · rw [hf, List.map_cons, List.forall_mem_cons] at hs
      rw [next_end_cons hf]
      show ∀ k ∈ (framesAfterEnd f uri name outer).map Frame.kept, k.OfExtent
      rw [map_framesAfterEnd Frame.kept_noteOptionEnd]
      exact hs.2

theorem ofExtent_run {s : State} (hs : ∀ k ∈ s.frames.map Frame.kept, k.OfExtent) (events : List Event) :
    ∀ k ∈ (s.run events).frames.map Frame.kept, k.OfExtent := by
  induction events generalizing s with
  | nil => exact hs
  | cons e events ih => exact ih (ofExtent_next hs e)

/-- Where the innermost open element is no `extent`, no query link is noted for it. -/
private theorem hasQueryLink_run_eq_false (sourceIsCss : Bool) {past : List Event}
    (h : (trackAll [] past).head? ≠ some (xhtml, "extent")) :
    (run { sourceIsCss } past).hasQueryLink = false := by
  have hnames : (run { sourceIsCss } past).frames.map (·.name) = (trackAll [] past).map knownName := names_run rfl past
  have hkept := ofExtent_run (s := { sourceIsCss }) (by simp) past
  rw [hasQueryLink, parent?]
  cases hframes : (run { sourceIsCss } past).frames with
  | nil => rfl
  | cons f outer =>
    rw [hframes, List.map_cons, List.forall_mem_cons] at hkept
    rw [hframes, List.map_cons] at hnames
    obtain ⟨element, opened, hopened, hname, -⟩ := List.map_eq_cons_iff.1 hnames.symm
    rw [List.head?_cons, Option.any_some, Bool.eq_false_iff]
    intro hfound
    refine h ?_
    rw [hopened, List.head?_cons, knownName_eq_some_iff.1 (hname.trans (hkept.1 hfound))]

/-! ### The query links of an element -/

/-- Where only the content of an `extent` has come, all of it closed, a query link is noted if a child is one. -/
private theorem hasQueryLink_of_nestsTo (s : State) {t : StartTag} (ht : t.name = "extent") {content : List Event}
    (h : NestsTo [] content []) :
    ((s.start t).run content).hasQueryLink = (childTags content).any (·.queries) := by
  obtain ⟨f, outer, hframes, -, hkept⟩ := s.exists_frame_of_nestsTo t h
  rw [kept_frameOf, ht, Kept.foldl_note] at hkept
  have hfound : f.extent.queryFound = _ := congrArg (·.2.queryFound) hkept
  rw [hasQueryLink, parent?, hframes, List.head?_cons, Option.any_some, hfound]
  simp [StartTag.isQueryLink_eq]

private theorem childEntries_journal_concat (s : State) {content : List Event} {opened : List ElementName}
    (h : NestsTo [] content opened) (e : Event) :
    childEntries (s.journal [] (content ++ [e])) = childEntries (s.journal [] content) ++
      if opened = [] then [⟨[], e, (s.run content).notices e⟩] else [] := by
  rw [childEntries, journal_concat, List.filter_append, h.trackAll_eq, childEntries, List.append_cancel_left_eq]
  cases opened with
  | nil => rfl
  | cons => rfl

variable {t : StartTag} {content : List Event} {opened : List ElementName}

/-- What is said of the query links that are children of the element. -/
private theorem placesOf_childEntries (s : State) (ht : t.name = "extent") (h : NestsTo [] content opened) :
    (childEntries ((s.start t).journal [] content)).flatMap
        (fun e => (placesOf .secondQueryLink e.notices).map (e.event, ·)) =
      ((childTags content).filter (·.queries)).tail.map fun u => (u.event, u.locator) := by
  induction content using List.reverseRecOn generalizing opened with
  | nil => rfl
  | append_singleton content e ih =>
    obtain ⟨between, hbefore, -⟩ := h.of_append
    rw [childEntries_journal_concat _ hbefore, childTags_concat hbefore, List.flatMap_append, ih hbefore]
    cases between with
    | cons => simp
    | nil =>
      rw [if_pos rfl, if_pos rfl, List.flatMap_singleton, List.filter_append, tail_concat_startTag?, List.map_append,
        List.append_cancel_left_eq, placesOf_notices_secondQueryLink, s.hasQueryLink_of_nestsTo ht hbefore]
      by_cases hfirst : (childTags content).filter (·.queries) = []
      · rw [if_pos hfirst, List.any_eq_false.2 (List.filter_eq_nil_iff.1 hfirst)]
        rfl
      · obtain ⟨u, hu⟩ := List.exists_mem_of_ne_nil _ hfirst
        obtain ⟨hmem, hqueries⟩ := List.mem_filter.1 hu
        rw [if_neg hfirst, List.any_eq_true.2 ⟨u, hmem, hqueries⟩, ← map_locator_startTag?, if_pos rfl]

/-- Take the query links that are children of a given `extent`. Each of them but the first is said to be one too many,
once and at its own place, and no other child is. This depends neither on what has come before nor on what stands
outside the element or inside its children. Nothing of the kind is said where the innermost open element is another one
or there is none. -/
theorem placesOf_secondQueryLink (sourceIsCss : Bool) (past : List Event) (ht : t.name = "extent")
    (h : NestsTo [] content opened) :
    let new : State := { sourceIsCss }
    let children := childEntries (((new.run past).start t).journal [] content)
    (children.flatMap fun e => (placesOf .secondQueryLink e.notices).map (e.event, ·)) =
      ((childTags content).filter (·.queries)).tail.map (fun u => (u.event, u.locator)) ∧
    ∀ (past' : List Event) (e : Event), (trackAll [] past').head? ≠ some (xhtml, "extent") →
      placesOf .secondQueryLink ((new.run past').notices e) = [] := by
  intro new children
  refine ⟨(new.run past).placesOf_childEntries ht h, fun past' e hnone => ?_⟩
  rw [placesOf_notices_secondQueryLink, hasQueryLink_run_eq_false sourceIsCss hnone]
  rfl

/-- Query links in an element that is not of the vocabulary, in another `extent` and beside these. -/
def nestedQueries : Forest :=
  .onLine 3 "link" [("rel", "Query")] .nil <|
  .element ⟨4, 40, none, none⟩ ⟨4, 50, none, none⟩ "urn:other" "link" (.ofPairs [("rel", "query")])
    (.onLine 5 "link" [("rel", "query")] .nil .nil) <|
  .onLine 6 "extent" []
    (.onLine 7 "link" [("rel", "query")] .nil <| .onLine 8 "link" [("rel", "query")] .nil .nil) <|
  .onLine 9 "link" [("rel", "tile queries")] .nil <|
  .onLine 10 "link" [("rel", "tile\nQUERY")] .nil .nil

theorem placesOf_secondQueryLink_nestedQueries :
    let past := (Forest.onLine 1 "extent" [] (.onLine 1 "link" [("rel", "query")] .nil .nil) .nil).events
    let children := childEntries (((({} : State).run past).start ⟨⟨2, 9, none, none⟩, "extent", []⟩).journal []
      nestedQueries.events)
    (children.flatMap fun e => (placesOf .secondQueryLink e.notices).map (e.event, ·)).map (·.2) =
      [⟨10, 40, none, none⟩] ∧
    placesOf .secondQueryLink ((({} : State).run past).notices
      (.startElement ⟨2, 9, none, none⟩ xhtml "link" (.ofPairs [("rel", "query")]))) = [] := by
  intro past children
  obtain ⟨hchildren, houtside⟩ := placesOf_secondQueryLink false past (t := ⟨⟨2, 9, none, none⟩, "extent", []⟩) rfl
    nestedQueries.nestsTo_events
  constructor
  · rw [hchildren]
    simp only [← StartTag.isQueryLink_eq]
    decide +kernel
  · exact houtside past _ (by decide +kernel)

end State

end MapMarkup.Rules
