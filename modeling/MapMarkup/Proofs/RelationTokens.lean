import MapMarkup.Diagnostic.Collector
import MapMarkup.Proofs.OpenRecords
import MapMarkup.Proofs.Readings
import MapMarkup.Proofs.Run
import MapMarkup.Proofs.Words

/-!
# Relations of links

The value of `rel` is read as a set of words without regard to case. So of two links that differ in this value only,
where both values have the same words, the same is said, and afterwards the same is known (`Checker.feed_linkTag`). The
one thing in which they can differ is the ID of the link: where `rel` is flagged as an ID its value is also taken as it
stands, and an element that waits for its active descendant may name one of the two values and not the other
(`State.pendingDescendants_ne_of_id`).
-/

namespace MapMarkup

namespace Rules

open Text (SameWords)
open Vocabulary

/-- A link with the given value of `rel` among its attributes. -/
def linkTag (locator : Locator) (before after : Attributes) (isId : Bool) (rel : String) : StartTag :=
  ⟨locator, "link", before ++ ⟨"", "rel", rel, isId⟩ :: after⟩

section

variable (locator : Locator) (before after : Attributes) (isId : Bool)

private theorem get?_linkTag_of_ne {key : String} (hkey : key ≠ "rel") (rel rel' : String) :
    (linkTag locator before after isId rel).get? key = (linkTag locator before after isId rel').get? key := by
  simp only [StartTag.get?, Attributes.get?, linkTag, List.find?_append, List.find?_cons, hkey.symm, decide_false,
    Bool.false_and]

private theorem last?_linkTag_of_ne {key : String} (hkey : key ≠ "rel") (rel rel' : String) :
    (linkTag locator before after isId rel).last? key = (linkTag locator before after isId rel').last? key := by
  simp only [StartTag.last?, Attributes.last?, linkTag, List.filter_append, List.filter_cons, hkey.symm, decide_false,
    Bool.false_and, Bool.false_eq_true, ↓reduceIte]

/-- Unless another `rel` stands before it, the value is that of the link. -/
private theorem get?_linkTag_rel (rel : String) :
    (linkTag locator before after isId rel).get? "rel" = some ((before.get? "" "rel").getD rel) := by
  simp only [StartTag.get?, Attributes.get?, linkTag, List.find?_append]
  cases before.find? fun a => a.name = "rel" && a.uri = "" with
  | none => rfl
  | some a => rfl

variable {rel rel' : String}

private theorem readsAs_linkTag (h : SameWords rel rel') :
    (linkTag locator before after isId rel).ReadsAs (linkTag locator before after isId rel') where
  locator := rfl
  name := rfl
  get?_eq _ hkey := get?_linkTag_of_ne locator before after isId hkey rel rel'
  last?_eq _ hkey := last?_linkTag_of_ne locator before after isId hkey rel rel'
  hasRelation_eq relation := by
    rw [StartTag.hasRelation, StartTag.relations, StartTag.hasRelation, StartTag.relations, get?_linkTag_rel,
      get?_linkTag_rel]
    cases before.get? "" "rel" with
    | some value => rfl
    | none =>
      rw [Bool.eq_iff_iff, List.contains_iff_mem, List.contains_iff_mem]
      exact Text.sameWords_iff.1 h relation
  rel_eq hn := by simp [linkTag] at hn

/-- Another value of `rel` makes a difference to the IDs only where it is one and stands among them. -/
private theorem contains_ids_linkTag {id : String} (h : isId → id ≠ rel ∧ id ≠ rel') :
    (linkTag locator before after isId rel).attributes.ids.contains id =
      (linkTag locator before after isId rel').attributes.ids.contains id := by
  have hrel (a : Attribute) (ha : a.isId → id ≠ a.value) (hname : a.name ≠ "id") :
      (Attributes.ids (before ++ a :: after)).contains id = (Attributes.ids (before ++ after)).contains id := by
    rw [Attributes.ids, Attributes.ids, List.filter_append, List.filter_append, List.filter_cons]
    split
    · rename_i hid
      have hne : id ≠ a.value := ha (by simpa [hname] using (Bool.and_eq_true_iff.1 hid).1)
      simp [hne]
    · rfl
  rw [linkTag, linkTag, hrel _ (fun hid => (h hid).1) (by decide : "rel" ≠ "id"),
    hrel _ (fun hid => (h hid).2) (by decide : "rel" ≠ "id")]

end

namespace State

variable (s : State) (locator : Locator) (before after : Attributes) (isId : Bool) {rel rel' : String}

/-- Whether an element that has not found its active descendant names the ID. -/
def awaits (s : State) (id : String) : Bool :=
  s.pendingDescendants.any fun p => s.isSettledBy [id] p.1

private theorem startNotices_linkTag (h : SameWords rel rel') :
    s.startNotices (linkTag locator before after isId rel) =
      s.startNotices (linkTag locator before after isId rel') := by
  have hreads := readsAs_linkTag locator before after isId h
  let link := linkTag locator before after isId
  have hwalk (rel : String) :
      (link rel).attributes.flatMap (link rel).attributeNotices =
        (before ++ after).flatMap (link rel).attributeNotices := by
    have hrel : (link rel).attributeNotices ⟨"", "rel", rel, isId⟩ = [] := rfl
    show (before ++ _ :: after).flatMap _ = _
    rw [List.flatMap_append, List.flatMap_cons, hrel, List.nil_append, List.flatMap_append]
  show s.startNotices (link rel) = s.startNotices (link rel')
  rw [startNotices, hwalk, hreads.attributeNotices_eq, ← hwalk, hreads.roleNotices_eq, hreads.inputNotices_eq,
    hreads.linkNotices_eq, hreads.optionNotices_eq]
  rfl

private theorem pendingDescendantsAfter_linkTag (h : isId → s.awaits rel = false ∧ s.awaits rel' = false) :
    s.pendingDescendantsAfter (linkTag locator before after isId rel) =
      s.pendingDescendantsAfter (linkTag locator before after isId rel') := by
  let link := linkTag locator before after isId
  have hsettled : ∀ p ∈ s.pendingDescendants,
      s.isSettledBy (link rel).attributes.ids p.1 = s.isSettledBy (link rel').attributes.ids p.1 := by
    intro p hp
    have hawaits (id : String) (hid : s.awaits id = false) : s.isSettledBy [id] p.1 = false := by
      simpa using List.any_eq_false.1 hid p hp
    cases hactive : (s.frameAt? p.1).bind (·.activeDescendant) with
    | none => rw [isSettledBy, isSettledBy, hactive, Option.any_none, Option.any_none]
    | some id =>
      have hne (id' : String) (hid' : s.awaits id' = false) : id ≠ id' := by
        simpa [isSettledBy, hactive] using hawaits id' hid'
      rw [isSettledBy, isSettledBy, hactive]
      exact contains_ids_linkTag locator before after isId fun hisId => ⟨hne rel (h hisId).1, hne rel' (h hisId).2⟩
  have howns : (link rel).has "aria-owns" = (link rel').has "aria-owns" :=
    congrArg Option.isSome (get?_linkTag_of_ne locator before after isId (by decide) rel rel')
  have hactive : (link rel).last? "aria-activedescendant" = (link rel').last? "aria-activedescendant" :=
    last?_linkTag_of_ne locator before after isId (by decide) rel rel'
  have hothers : s.pendingDescendants.filter (fun p => !s.isSettledBy (link rel).attributes.ids p.1) =
      s.pendingDescendants.filter (fun p => !s.isSettledBy (link rel').attributes.ids p.1) :=
    List.filter_congr fun p hp => by rw [hsettled p hp]
  show s.pendingDescendantsAfter (link rel) = s.pendingDescendantsAfter (link rel')
  rw [pendingDescendantsAfter, hothers, howns, hactive]
  rfl

/-- But for the elements that wait for their active descendant the same is known. -/
private theorem start_linkTag (h : SameWords rel rel') :
    s.start (linkTag locator before after isId rel') =
      { s.start (linkTag locator before after isId rel) with
        pendingDescendants := s.pendingDescendantsAfter (linkTag locator before after isId rel') } := by
  have hreads := readsAs_linkTag locator before after isId h
  -- The IDs of a link count for active descendants only.
  have hcontrols : s.controlsAfter (linkTag locator before after isId rel') =
      s.controlsAfter (linkTag locator before after isId rel) := rfl
  have hforms : s.formsAfter (linkTag locator before after isId rel') =
      s.formsAfter (linkTag locator before after isId rel) := rfl
  have hlists : s.listsAfter (linkTag locator before after isId rel') =
      s.listsAfter (linkTag locator before after isId rel) := rfl
  rw [start, start, ← hreads.framesAfter_eq, ← hreads.inputsAfter_eq, ← hreads.isSelfStyle_eq, hcontrols, hforms,
    hlists]
  rfl

/-! ### IDs -/

/-- The value of `rel` is an ID if it is flagged as one, and then its case matters: an element waits for the one value
and not for the other. -/
theorem pendingDescendants_ne_of_id :
    let s := ({} : State).run [.startDocument,
      .startElement ⟨1, 9, none, none⟩ xhtml "div" (.ofPairs [("aria-activedescendant", "query")])]
    let e := (linkTag ⟨2, 9, none, none⟩ [] [] true "query").event
    let e' := (linkTag ⟨2, 9, none, none⟩ [] [] true "Query").event
    let later : List Event :=
      [.endElement ⟨2, 9, none, none⟩ xhtml "link", .endElement ⟨3, 9, none, none⟩ xhtml "div", .endDocument]
    SameWords "query" "Query" ∧ s.notices e = s.notices e' ∧
    (s.next e).pendingDescendants = [] ∧ (s.next e').pendingDescendants = [(0, ⟨1, 9, none, none⟩)] ∧
    s.runNotices (e :: later) = [] ∧
    s.runNotices (e' :: later) = [.violation .activeDescendantElsewhere ⟨1, 9, none, none⟩] := by
  intro s e e' later
  have hquery : Text.words ("query" : String).toLower = ["query"] := by decide +kernel
  have hQuery : Text.words ("Query" : String).toLower = ["query"] := by decide +kernel
  refine ⟨Text.sameWords_iff.2 fun word => by rw [hquery, hQuery], ?_, ?_, ?_, ?_, ?_⟩
  all_goals decide +kernel

end State

end Rules

namespace Checker

open Rules (linkTag)

variable {σ : Type} [Sink σ] {m : Type → Type} [Monad m] [LawfulMonad m]

/-- Take two links that differ in the value of `rel` only, and let both values have the same words without regard to
case. The same is said about them, so that the sink takes the same, and the same is known afterwards, but for the
elements that wait for their active descendant. If the attribute is not flagged as an ID, or if no element waits for one
of the two values, then all is the same, and so is whatever happens later. -/
theorem feed_linkTag (css : CssParser m) (c : Checker σ) (locator : Locator) (before after : Attributes) (isId : Bool)
    {rel rel' : String} (h : Text.SameWords rel rel') :
    let e := (linkTag locator before after isId rel).event
    let e' := (linkTag locator before after isId rel').event
    c.state.notices e = c.state.notices e' ∧
    (·.sink) <$> c.feed css e = (·.sink) <$> c.feed css e' ∧
    c.state.next e' = { c.state.next e with pendingDescendants := (c.state.next e').pendingDescendants } ∧
    ((isId → c.state.awaits rel = false ∧ c.state.awaits rel' = false) →
      c.state.next e = c.state.next e' ∧ ∀ later, c.feedAll css (e :: later) = c.feedAll css (e' :: later)) := by
  intro e e'
  have hnotices : c.state.notices e = c.state.notices e' := c.state.startNotices_linkTag locator before after isId h
  have hnext : c.state.next e' = { c.state.next e with pendingDescendants := (c.state.next e').pendingDescendants } :=
    c.state.start_linkTag locator before after isId h
  refine ⟨hnotices, ?_, hnext, fun hwaits => ?_⟩
  · simp only [feed, hnotices, map_bind, map_pure]
  · have hpending : (c.state.next e').pendingDescendants = (c.state.next e).pendingDescendants :=
      (c.state.pendingDescendantsAfter_linkTag locator before after isId hwaits).symm
    have hstate : c.state.next e = c.state.next e' := by rw [hnext, hpending]
    refine ⟨hstate, fun later => ?_⟩
    simp only [feedAll, List.foldlM_cons, feed, hnotices, hstate]

/-- A second query link, once with its relations as they should be written and once in disorder. Its `rel` is flagged as
an ID, and an element waits for another one. -/
theorem feed_linkTag_disorder :
    let past : List Event := [.startDocument,
      .startElement ⟨1, 9, none, none⟩ Vocabulary.xhtml "body" (.ofPairs [("aria-activedescendant", "a")]),
      .startElement ⟨2, 9, none, none⟩ Vocabulary.xhtml "extent" [],
      .startElement ⟨3, 9, none, none⟩ Vocabulary.xhtml "link" (.ofPairs [("rel", "query")]),
      .endElement ⟨3, 9, none, none⟩ Vocabulary.xhtml "link"]
    let c : Checker Collector := { state := ({} : Rules.State).run past, sink := {} }
    let link := linkTag ⟨4, 9, none, none⟩ [] (.ofPairs [("tref", "\x7bz\x7d")]) true
    let later : List Event := [.endElement ⟨4, 9, none, none⟩ Vocabulary.xhtml "link"]
    Text.SameWords "query tile" " TILE\n\tQuery tile" ∧
    c.state.notices (link "query tile").event = [.violation .secondQueryLink ⟨4, 9, none, none⟩] ∧
    c.state.notices (link " TILE\n\tQuery tile").event = [.violation .secondQueryLink ⟨4, 9, none, none⟩] ∧
    (c.state.awaits "query tile" = false ∧ c.state.awaits " TILE\n\tQuery tile" = false) ∧
    c.feedAll (m := Id) ⟨fun _ => [], fun _ _ => []⟩ ((link "query tile").event :: later) =
      c.feedAll (m := Id) ⟨fun _ => [], fun _ _ => []⟩ ((link " TILE\n\tQuery tile").event :: later) := by
  intro past c link later
  have hwords : Text.words ("query tile" : String).toLower = ["query", "tile"] := by decide +kernel
  have hwords' : Text.words (" TILE\n\tQuery tile" : String).toLower = ["tile", "query", "tile"] := by decide +kernel
  have hsame : Text.SameWords "query tile" " TILE\n\tQuery tile" := Text.sameWords_iff.2 fun word => by
    rw [hwords, hwords']
    grind
  have hwaits : c.state.awaits "query tile" = false ∧ c.state.awaits " TILE\n\tQuery tile" = false := by
    decide +kernel
  obtain ⟨hnotices, -, -, hlater⟩ :=
    feed_linkTag (m := Id) ⟨fun _ => [], fun _ _ => []⟩ c ⟨4, 9, none, none⟩ [] (.ofPairs [("tref", "\x7bz\x7d")]) true
      hsame
  have hsaid : c.state.notices (link "query tile").event = [.violation .secondQueryLink ⟨4, 9, none, none⟩] := by
    decide +kernel
  exact ⟨hsame, hsaid, hnotices.symm.trans hsaid, hwaits, (hlater fun _ => hwaits).2 later⟩

end Checker

end MapMarkup
