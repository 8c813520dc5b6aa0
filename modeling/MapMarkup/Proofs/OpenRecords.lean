import Mathlib.Data.List.Induction
import MapMarkup.Proofs.Frames
import MapMarkup.Proofs.Registration

/-!
# What is kept under the depths of open elements

A start tag may leave a record under the depth of its element, which is to be looked at until the element ends. Depths
are used again by later elements, and an end tag may have any name, so it is not plain that a record belongs to the
element that is open at its depth. It does, whatever the events are: the records of a state are those of the elements
that are open, as their start tags made them, less those that have been dropped on purpose (`Recording.mem_run`).

There are two such records: elements whose active descendant has not been found, and `select` elements in which one
option can be selected. `State.records_run` says of both which of them there are, and what the frames at their depths
are like.
-/

namespace MapMarkup.Rules

open Vocabulary

/-- The event of a start tag. -/
def StartTag.event (t : StartTag) : Event :=
  .startElement t.locator xhtml t.name t.attributes

theorem startTag?_eq_some_iff {e : Event} {t : StartTag} : startTag? e = some t ↔ e = t.event := by
  constructor
  · intro h
    cases e with
    | startElement locator uri name attributes =>
      by_cases hu : uri = xhtml
      · rw [startTag?, if_pos hu, Option.some.injEq] at h
        rw [hu, ← h]
        rfl
      · simp [startTag?, hu] at h
    | startDocument | endDocument | reset | endElement | characters | sourceIsCss => simp [startTag?] at h
  · rintro rfl
    exact startTag?_startElement t.locator t.name t.attributes

/-- The tag of one more event is at most one, so that it is the first of all tags with a property, or a further one. -/
theorem tail_concat_startTag? (tags : List StartTag) (p : StartTag → Bool) (e : Event) :
    (tags ++ (startTag? e).toList.filter p).tail =
      tags.tail ++ if tags = [] then [] else (startTag? e).toList.filter p := by
  cases tags with
  | cons t tags => rfl
  | nil =>
    have hfew : ((startTag? e).toList.filter p).length ≤ 1 :=
      Nat.le_trans (List.length_filter_le _ _) (by cases startTag? e <;> simp)
    refine List.eq_nil_of_length_eq_zero ?_
    rw [List.nil_append, List.length_tail]
    omega

/-- The tag of an event, with the event beside its place. -/
theorem map_locator_startTag? (p : StartTag → Bool) (e : Event) :
    (((startTag? e).toList.filter p).map (·.locator)).map (e, ·) =
      ((startTag? e).toList.filter p).map fun u => (u.event, u.locator) := by
  rw [List.map_map]
  refine List.map_congr_left fun u hu => ?_
  rw [startTag?_eq_some_iff.1 (Option.mem_toList.1 (List.mem_filter.1 hu).1)]
  rfl

theorem forall_mem_startTags_concat {events : List Event} {e : Event} {P : StartTag → Prop} :
    (∀ t ∈ startTags (events ++ [e]), P t) ↔ (∀ t ∈ startTags events, P t) ∧ ∀ t, startTag? e = some t → P t := by
  simp only [startTags_append, List.mem_append, or_imp, forall_and]
  simp [startTags, List.mem_filterMap]

private theorem getElem?_reverse_cons {α : Type} (x : α) {xs : List α} {depth : Nat} (h : depth < xs.length) :
    (x :: xs).reverse[depth]? = xs.reverse[depth]? := by
  rw [List.reverse_cons, List.getElem?_append_left (by simpa using h)]

namespace State

/-! ### Frames of elements that stay open -/

/-- An element at the depth is open, and stays so during the events. -/
def HoldsOpen (s : State) (depth : Nat) (events : List Event) : Prop :=
  ∀ past, past <+: events → depth < (s.run past).depth

/-- The tag starts an element at the depth that stays open during the events after it, and the document is not to be
forgotten meanwhile. -/
structure Opens (s : State) (before : List Event) (t : StartTag) (after : List Event) (depth : Nat) : Prop where
  depth_eq : (s.run before).depth = depth
  held : ((s.run before).start t).HoldsOpen depth after
  kept : .reset ∉ after

theorem holdsOpen_concat_iff {s : State} {depth : Nat} {events : List Event} {e : Event} :
    s.HoldsOpen depth (events ++ [e]) ↔ s.HoldsOpen depth events ∧ depth < ((s.run events).next e).depth := by
  have hlast : s.run (events ++ [e]) = (s.run events).next e := s.run_append events [e]
  constructor
  · intro h
    refine ⟨fun past hpast => h past (hpast.trans (List.prefix_append events [e])), ?_⟩
    rw [← hlast]
    exact h _ (List.prefix_refl _)
  · rintro ⟨hbefore, hafter⟩ past hpast
    rcases List.prefix_concat_iff.1 hpast with rfl | hpast
    · rw [hlast]
      exact hafter
    · exact hbefore past hpast

private theorem holdsOpen_nil_iff {s : State} {depth : Nat} : s.HoldsOpen depth [] ↔ depth < s.depth := by
  constructor
  · exact fun h => h [] (List.prefix_refl _)
  · intro h past hpast
    rw [List.prefix_nil.1 hpast]
    exact h

private theorem map_bare_frameAt? (s : State) (depth : Nat) :
    (s.frameAt? depth).map Frame.bare = (s.frames.map Frame.bare).reverse[depth]? := by
  rw [frameAt?, ← List.map_reverse, List.getElem?_map]

private theorem frameAt?_isSome_iff {s : State} {depth : Nat} : (s.frameAt? depth).isSome ↔ depth < s.depth := by
  rw [frameAt?, isSome_getElem?, List.length_reverse]
  rfl

/-- What the start tag of an element has settled about it stays as it is while the element is open. -/
private theorem bare_frameAt?_next {s : State} {depth : Nat} (h : depth < s.depth) {e : Event}
    (h' : depth < (s.next e).depth) :
    ((s.next e).frameAt? depth).map Frame.bare = (s.frameAt? depth).map Frame.bare := by
  have hlength : (s.frames.map Frame.bare).length = s.depth := List.length_map _
  rw [map_bare_frameAt?, map_bare_frameAt?, bareFrames_next]
  cases e with
  | startDocument | endDocument => exact absurd h' (Nat.not_lt_zero depth)
  | reset | characters | sourceIsCss => rfl
  | startElement locator uri name attributes => exact getElem?_reverse_cons _ (by rw [hlength]; exact h)
  | endElement locator uri name =>
    rw [depth_next_endElement] at h'
    rw [bareFramesAfter]
    rcases hf : s.frames.map Frame.bare with _ | ⟨f, outer⟩
    · rfl
    · rw [hf, List.length_cons] at hlength
      have houter : depth < outer.length := by omega
      exact (getElem?_reverse_cons f houter).symm

theorem HoldsOpen.bare_frameAt?_run {s : State} {depth : Nat} {events : List Event} (h : s.HoldsOpen depth events) :
    ((s.run events).frameAt? depth).map Frame.bare = (s.frameAt? depth).map Frame.bare := by
  induction events using List.reverseRecOn with
  | nil => rfl
  | append_singleton events e ih =>
    obtain ⟨hbefore, hafter⟩ := holdsOpen_concat_iff.1 h
    have hopen : depth < (s.run events).depth := hbefore events (List.prefix_refl _)
    rw [run_append, run_cons, run_nil, bare_frameAt?_next hopen hafter, ih hbefore]

theorem frameAt?_start (s : State) (t : StartTag) : (s.start t).frameAt? s.depth = some (s.frameOf t) := by
  have hlength := s.depth_start t
  show (s.framesAfter t).reverse[s.depth]? = _
  have hframes : (s.start t).depth = (s.framesAfter t).length := rfl
  rw [hframes, framesAfter, List.length_cons, Nat.add_right_cancel_iff] at hlength
  rw [framesAfter, List.reverse_cons, List.getElem?_append_right (by simp [hlength]), List.length_reverse, hlength,
    Nat.sub_self]
  rfl

/-- The frame of an element that has stayed open is that of its start tag. -/
private theorem Opens.frameAt?_eq {s : State} {before after : List Event} {t : StartTag} {depth : Nat}
    (h : s.Opens before t after depth) :
    ∃ f, (s.run (before ++ t.event :: after)).frameAt? depth = some f ∧
      f.bare = ((s.run before).frameOf t).bare := by
  have hrun : s.run (before ++ t.event :: after) = ((s.run before).start t).run after := by
    rw [run_append, run_cons, StartTag.event, next_start]
  have hframe := h.held.bare_frameAt?_run
  rw [← hrun, ← h.depth_eq, frameAt?_start, Option.map_some, Option.map_eq_some_iff] at hframe
  rw [← h.depth_eq]
  exact hframe

/-- An opening tag among the events up to some event and including it. -/
private theorem exists_opens_concat_iff {s : State} {events : List Event} {e : Event} {depth : Nat}
    {P : List Event → StartTag → List Event → Prop} :
    (∃ before t after, events ++ [e] = before ++ t.event :: after ∧ s.Opens before t after depth ∧ P before t after) ↔
      (∃ t, startTag? e = some t ∧ (s.run events).depth = depth ∧ P events t []) ∨
        ∃ before t after, events = before ++ t.event :: after ∧ s.Opens before t after depth ∧ e ≠ .reset ∧
          depth < ((s.run events).next e).depth ∧ P before t (after ++ [e]) := by
  constructor
  · rintro ⟨before, t, after, htext, hopens, hP⟩
    rcases List.eq_nil_or_concat after with rfl | ⟨after, e', rfl⟩
    · obtain ⟨rfl, he⟩ := List.append_inj' htext rfl
      rw [List.singleton_inj.1 he]
      exact .inl ⟨t, startTag?_eq_some_iff.2 rfl, hopens.depth_eq, hP⟩
    · rw [List.concat_eq_append] at htext hopens hP
      have htext' : events ++ [e] = (before ++ t.event :: after) ++ [e'] := by simpa using htext
      obtain ⟨rfl, he⟩ := List.append_inj' htext' rfl
      obtain rfl := List.singleton_inj.1 he
      obtain ⟨hbefore, hafter⟩ := holdsOpen_concat_iff.1 hopens.held
      have hkept := hopens.kept
      rw [List.mem_append, List.mem_singleton, not_or] at hkept
      refine .inr ⟨before, t, after, rfl, ⟨hopens.depth_eq, hbefore, hkept.1⟩, Ne.symm hkept.2, ?_, hP⟩
      rw [run_append, run_cons, StartTag.event, next_start]
      exact hafter
  · rintro (⟨t, ht, hdepth, hP⟩ | ⟨before, t, after, rfl, hopens, hreset, hafter, hP⟩)
    · refine ⟨events, t, [], by rw [startTag?_eq_some_iff.1 ht], ⟨hdepth, ?_, List.not_mem_nil⟩, hP⟩
      rw [holdsOpen_nil_iff, depth_start, hdepth]
      exact Nat.lt_succ_self depth
    · refine ⟨before, t, after ++ [e], by simp, ⟨hopens.depth_eq, ?_, ?_⟩, hP⟩
      · rw [run_append, run_cons, StartTag.event, next_start] at hafter
        exact holdsOpen_concat_iff.2 ⟨hopens.held, hafter⟩
      · simpa [hopens.kept] using hreset.symm

end State

/-! ### Records -/

/-- A kind of record that start tags make under the depths of their elements. -/
structure Recording (ρ : Type) where
  records : State → List ρ
  depthOf : ρ → Nat
  /-- The record that a tag makes at a depth. -/
  made? : Nat → StartTag → Option ρ
  /-- Whether a tag drops the record of an element, which has the frame. -/
  drops : Frame → StartTag → Bool

namespace Recording

variable {ρ : Type} {R : Recording ρ}

/-- Records come and go with the elements that they are about. -/
structure Lawful (R : Recording ρ) : Prop where
  depthOf_made {depth : Nat} {t : StartTag} {r : ρ} : R.made? depth t = some r → R.depthOf r = depth
  drops_bare (f : Frame) : R.drops f.bare = R.drops f
  clear (s : State) : R.records s.clear = []
  reset (s : State) : R.records s.reset = []
  sourceIsCss (s : State) (value : Bool) : R.records (s.next (.sourceIsCss value)) = R.records s
  characters (s : State) (text : String) : R.records (s.next (.characters text)) = R.records s
  startOther (s : State) (locator : Locator) : R.records (s.startOther locator) = R.records s
  finish (s : State) (f : Frame) (outer : List Frame) (uri name : String) :
    R.records (s.finish f outer uri name) = (R.records s).filter (R.depthOf · ≠ outer.length)
  start {s : State} (hs : ∀ r ∈ R.records s, R.depthOf r < s.depth) (t : StartTag) (r : ρ) :
    r ∈ R.records (s.start t) ↔ R.made? s.depth t = some r ∨
      r ∈ R.records s ∧ ∀ f, s.frameAt? (R.depthOf r) = some f → R.drops f t = false

/-- A record is new, or it is an old one of an element that is still open. -/
theorem Lawful.mem_next (hR : R.Lawful) {s : State} (hs : ∀ r ∈ R.records s, R.depthOf r < s.depth) (e : Event)
    (r : ρ) :
    r ∈ R.records (s.next e) ↔
      (∃ t, startTag? e = some t ∧ R.made? s.depth t = some r) ∨
      r ∈ R.records s ∧ e ≠ .reset ∧ R.depthOf r < (s.next e).depth ∧
        ∀ t, startTag? e = some t → ∀ f, s.frameAt? (R.depthOf r) = some f → R.drops f t = false := by
  cases e with
  | startDocument | endDocument =>
    have hrecords : R.records (s.next .startDocument) = [] := hR.clear s
    have hdepth : (s.next .startDocument).depth = 0 := rfl
    have hnext : s.next .endDocument = s.next .startDocument := rfl
    simp [hnext, hrecords, hdepth, startTag?]
  | reset =>
    have hrecords : R.records s.reset = [] := hR.reset s
    simp [State.next, hrecords, startTag?]
  | sourceIsCss value =>
    have hdepth : (s.next (.sourceIsCss value)).depth = s.depth := rfl
    rw [hR.sourceIsCss, hdepth]
    simpa [startTag?] using hs r
  | characters text =>
    rw [hR.characters, State.depth_next_characters]
    simpa [startTag?] using hs r
  | startElement locator uri name attributes =>
    rw [State.depth_next_startElement]
    by_cases hu : uri = xhtml
    · subst hu
      rw [State.next_start s ⟨locator, name, attributes⟩, hR.start hs]
      simp only [startTag?_startElement, Option.some.injEq, exists_eq_left', forall_eq', ne_eq, reduceCtorEq,
        not_false_eq_true, true_and]
      refine or_congr_right (and_congr_right fun hr => ?_)
      exact (and_iff_right (Nat.lt_succ_of_lt (hs r hr))).symm
    · have ht : startTag? (.startElement locator uri name attributes) = none := by simp [startTag?, hu]
      rw [State.next_startOther s locator name attributes hu, hR.startOther, ht]
      simpa using fun hr => Nat.lt_succ_of_lt (hs r hr)
  | endElement locator uri name =>
    rw [State.depth_next_endElement]
    rcases hf : s.frames with _ | ⟨f, outer⟩
    · have hdepth : s.depth = 0 := by simp [State.depth, hf]
      rw [State.next_end_nil hf, hdepth]
      simpa [startTag?] using fun hr => absurd (hdepth ▸ hs r hr) (Nat.not_lt_zero _)
    · have hdepth : s.depth = outer.length + 1 := by simp [State.depth, hf]
      rw [State.next_end_cons hf, hR.finish, List.mem_filter, hdepth, Nat.add_sub_cancel]
      simp only [startTag?, decide_eq_true_eq, ne_eq, reduceCtorEq, not_false_eq_true, true_and, false_and,
        exists_false, false_or, false_implies, implies_true, and_true]
      refine and_congr_right fun hr => ?_
      have hr := hs r hr
      rw [hdepth] at hr
      omega

/-- An event leaves no record of an element that is not open. -/
theorem Lawful.depthOf_lt_next (hR : R.Lawful) {s : State} (hs : ∀ r ∈ R.records s, R.depthOf r < s.depth) (e : Event) :
    ∀ r ∈ R.records (s.next e), R.depthOf r < (s.next e).depth := by
  intro r hr
  rcases (hR.mem_next hs e r).1 hr with ⟨t, ht, hmade⟩ | ⟨-, -, hdepth, -⟩
  · rw [hR.depthOf_made hmade, startTag?_eq_some_iff.1 ht, StartTag.event, State.depth_next_startElement]
    exact Nat.lt_succ_self _
  · exact hdepth

theorem Lawful.depthOf_lt_run (hR : R.Lawful) {s : State} (hs : ∀ r ∈ R.records s, R.depthOf r < s.depth)
    (events : List Event) : ∀ r ∈ R.records (s.run events), R.depthOf r < (s.run events).depth := by
  induction events generalizing s with
  | nil => exact hs
  | cons e events ih => exact ih (hR.depthOf_lt_next hs e)

/-- Each record is about an element that is open, whatever the events have been. -/
theorem Lawful.depthOf_lt (hR : R.Lawful) (sourceIsCss : Bool) (events : List Event) :
    let s : State := { sourceIsCss }
    ∀ r ∈ R.records (s.run events), R.depthOf r < (s.run events).depth := by
  intro s
  have hrecords : R.records s = [] := hR.clear s
  exact hR.depthOf_lt_run (by simp [hrecords]) events

/-- The records after a run are those that the start tags of open elements have made, less those that have been dropped
since. -/
theorem Lawful.mem_run (hR : R.Lawful) (sourceIsCss : Bool) (events : List Event) (r : ρ) :
    let s : State := { sourceIsCss }
    r ∈ R.records (s.run events) ↔
      ∃ before t after, events = before ++ t.event :: after ∧ s.Opens before t after (R.depthOf r) ∧
        R.made? (R.depthOf r) t = some r ∧ ∀ u ∈ startTags after, R.drops ((s.run before).frameOf t) u = false := by
  intro s
  induction events using List.reverseRecOn generalizing r with
  | nil =>
    have hrecords : R.records s = [] := hR.clear s
    simp [hrecords]
  | append_singleton events e ih =>
    -- The element of a record is open, so that the step lemma applies.
    have hopen : ∀ r ∈ R.records (s.run events), R.depthOf r < (s.run events).depth :=
      hR.depthOf_lt sourceIsCss events
    have hlast : s.run (events ++ [e]) = (s.run events).next e := s.run_append events [e]
    rw [hlast, hR.mem_next hopen, State.exists_opens_concat_iff]
    refine or_congr ?_ ?_
    · constructor
      · rintro ⟨t, ht, hmade⟩
        have hdepth := hR.depthOf_made hmade
        exact ⟨t, ht, hdepth.symm, hdepth.symm ▸ hmade, by simp⟩
      · rintro ⟨t, ht, hdepth, hmade, -⟩
        exact ⟨t, ht, hdepth ▸ hmade⟩
    · constructor
      · rintro ⟨hr, hreset, hdepth, hdrops⟩
        obtain ⟨before, t, after, rfl, hopens, hmade, hkeeps⟩ := (ih r).1 hr
        refine ⟨before, t, after, rfl, hopens, hreset, hdepth, hmade, ?_⟩
        obtain ⟨f, hf, hbare⟩ := hopens.frameAt?_eq
        rw [forall_mem_startTags_concat]
        refine ⟨hkeeps, fun u hu => ?_⟩
        rw [← hR.drops_bare, ← hbare, hR.drops_bare]
        exact hdrops u hu f hf
      · rintro ⟨before, t, after, rfl, hopens, hreset, hdepth, hmade, hkeeps⟩
        rw [forall_mem_startTags_concat] at hkeeps
        refine ⟨(ih r).2 ⟨before, t, after, rfl, hopens, hmade, hkeeps.1⟩, hreset, hdepth, fun u hu f hf => ?_⟩
        obtain ⟨g, hg, hbare⟩ := hopens.frameAt?_eq
        obtain rfl := Option.some.inj (hf.symm.trans hg)
        rw [← hR.drops_bare, hbare, hR.drops_bare]
        exact hkeeps.2 u hu

/-- Elements whose active descendant has not been found. -/
def pendingDescendants : Recording (Nat × Locator) where
  records := State.pendingDescendants
  depthOf := Prod.fst
  made? depth t :=
    if (t.last? "aria-activedescendant").isSome && !t.has "aria-owns" then some (depth, t.locator) else none
  drops f t := f.activeDescendant.any t.attributes.ids.contains

/-- Elements in which one option can be selected. -/
def singleSelects : Recording Nat where
  records := State.singleSelects
  depthOf := id
  made? depth t := if t.isSingleSelect then some depth else none
  drops _ _ := false

theorem lawful_pendingDescendants : pendingDescendants.Lawful where
  depthOf_made {depth t r} h := by
    obtain ⟨-, h⟩ := Option.ite_none_right_eq_some.1 h
    rw [← Option.some.inj h]
    rfl
  drops_bare f := rfl
  clear s := rfl
  reset s := rfl
  sourceIsCss s value := rfl
  characters s text := rfl
  startOther s locator := rfl
  finish s f outer uri name := rfl
  start {s} hs t r := by
    have hold : r ∈ s.pendingDescendants.filter (fun p => !s.isSettledBy t.attributes.ids p.1) ↔
        r ∈ s.pendingDescendants ∧
          ∀ f, s.frameAt? r.1 = some f → f.activeDescendant.any t.attributes.ids.contains = false := by
      rw [List.mem_filter, State.isSettledBy]
      rcases hf : s.frameAt? r.1 with _ | f
      · simp
      · simp
    show r ∈ s.pendingDescendantsAfter t ↔ (if _ then _ else _) = some r ∨ _
    unfold State.pendingDescendantsAfter
    dsimp only
    split
    · rw [List.mem_cons, List.mem_filter, hold, Option.some.injEq, eq_comm]
      refine or_congr_right (and_iff_left_of_imp fun hr => ?_)
      have hdepth : r.1 < s.depth := hs r hr.1
      exact decide_eq_true (Nat.ne_of_lt hdepth)
    · rw [hold]
      simp [pendingDescendants]

theorem lawful_singleSelects : singleSelects.Lawful where
  depthOf_made {depth t r} h := by
    obtain ⟨-, h⟩ := Option.ite_none_right_eq_some.1 h
    rw [← Option.some.inj h]
    rfl
  drops_bare f := rfl
  clear s := rfl
  reset s := rfl
  sourceIsCss s value := rfl
  characters s text := rfl
  startOther s locator := rfl
  finish s f outer uri name := rfl
  start {s} hs t r := by
    show r ∈ (if _ then _ else _) ↔ (if _ then _ else _) = some r ∨ _
    split
    · rw [List.mem_cons, List.mem_filter, Option.some.injEq]
      refine or_congr eq_comm ?_
      simpa [singleSelects] using fun hr : r ∈ s.singleSelects => Nat.ne_of_lt (hs r hr)
    · simp [singleSelects]

end Recording

namespace State

/-- The elements that wait for their active descendant are those open ones whose tags name one without owning elements,
unless a tag inside has its ID. -/
private theorem mem_pendingDescendants_run (sourceIsCss : Bool) (events : List Event) (depth : Nat)
    (locator : Locator) :
    let s : State := { sourceIsCss }
    (depth, locator) ∈ (s.run events).pendingDescendants ↔
      ∃ before t after, events = before ++ t.event :: after ∧ s.Opens before t after depth ∧ t.locator = locator ∧
        t.has "aria-owns" = false ∧ ∃ id, t.last? "aria-activedescendant" = some id ∧
          ∀ u ∈ startTags after, id ∉ u.attributes.ids := by
  intro s
  refine (Recording.lawful_pendingDescendants.mem_run sourceIsCss events (depth, locator)).trans ?_
  refine exists_congr fun before => exists_congr fun t => exists_congr fun after => and_congr_right fun _ =>
    and_congr_right fun _ => ?_
  show (if _ then some (depth, t.locator) else none) = some (depth, locator) ∧
    (∀ u ∈ startTags after, (t.last? "aria-activedescendant").any u.attributes.ids.contains = false) ↔ _
  rcases t.last? "aria-activedescendant" with _ | id
  · simp
  · have hmade : (if (some id).isSome && !t.has "aria-owns" then some (depth, t.locator) else none) =
        some (depth, locator) ↔ t.locator = locator ∧ t.has "aria-owns" = false := by
      simp [and_comm]
    have hkeeps : (∀ u ∈ startTags after, (some id).any u.attributes.ids.contains = false) ↔
        ∃ id', some id = some id' ∧ ∀ u ∈ startTags after, id' ∉ u.attributes.ids := by
      simp
    rw [hmade, hkeeps, and_assoc]

/-- The elements in which one option can be selected are the open ones with such a tag. -/
private theorem mem_singleSelects_run (sourceIsCss : Bool) (events : List Event) (depth : Nat) :
    let s : State := { sourceIsCss }
    depth ∈ (s.run events).singleSelects ↔
      ∃ before t after, events = before ++ t.event :: after ∧ s.Opens before t after depth ∧ t.isSingleSelect := by
  intro s
  refine (Recording.lawful_singleSelects.mem_run sourceIsCss events depth).trans ?_
  refine exists_congr fun before => exists_congr fun t => exists_congr fun after => and_congr_right fun _ =>
    and_congr_right fun _ => ?_
  show (if _ then some depth else none) = some depth ∧ (∀ u ∈ startTags after, false = false) ↔ _
  simp

/-- The frame of an element that has stayed open has the name, the place and the active descendant of its tag. -/
private theorem Opens.exists_frame {s : State} {before after : List Event} {t : StartTag} {depth : Nat}
    (h : s.Opens before t after depth) :
    let reached := s.run (before ++ t.event :: after)
    depth < reached.depth ∧ ∃ f, reached.frameAt? depth = some f ∧ f.name = some t.name ∧ f.locator = t.locator ∧
      f.activeDescendant = t.last? "aria-activedescendant" := by
  intro reached
  obtain ⟨f, hf, hbare⟩ := h.frameAt?_eq
  refine ⟨frameAt?_isSome_iff.1 (by rw [hf]; rfl), f, hf, ?_, ?_, ?_⟩
  · exact congrArg (·.name) hbare
  · exact congrArg (·.locator) hbare
  · exact congrArg (·.activeDescendant) hbare

/-- After any events, whether they are properly nested or not, the records are exactly these: for each element that is
open, the place of its tag, if the tag names an active descendant without owning elements and no tag since has its ID;
and each `select` that is open, if it is a single one. So each record is kept under the depth of an open element, whose
frame is that of the tag that has made the record. -/
theorem records_run (sourceIsCss : Bool) (events : List Event) :
    let new : State := { sourceIsCss }
    let s := new.run events
    (∀ depth locator, (depth, locator) ∈ s.pendingDescendants →
      depth < s.depth ∧ ∃ f, s.frameAt? depth = some f ∧ f.activeDescendant.isSome ∧ f.locator = locator) ∧
    (∀ depth ∈ s.singleSelects, depth < s.depth ∧ ∃ f, s.frameAt? depth = some f ∧ f.name = some "select") ∧
    (∀ depth locator, (depth, locator) ∈ s.pendingDescendants ↔
      ∃ before t after, events = before ++ t.event :: after ∧ new.Opens before t after depth ∧ t.locator = locator ∧
        t.has "aria-owns" = false ∧ ∃ id, t.last? "aria-activedescendant" = some id ∧
          ∀ u ∈ startTags after, id ∉ u.attributes.ids) ∧
    ∀ depth, depth ∈ s.singleSelects ↔
      ∃ before t after, events = before ++ t.event :: after ∧ new.Opens before t after depth ∧ t.isSingleSelect := by
  intro new s
  refine ⟨?_, ?_, mem_pendingDescendants_run sourceIsCss events, mem_singleSelects_run sourceIsCss events⟩
  · intro depth locator h
    obtain ⟨before, t, after, rfl, hopens, hlocator, -, id, hid, -⟩ := (mem_pendingDescendants_run ..).1 h
    obtain ⟨hdepth, f, hf, -, hplace, hactive⟩ := hopens.exists_frame
    exact ⟨hdepth, f, hf, by rw [hactive, hid]; rfl, hplace.trans hlocator⟩
  · intro depth h
    obtain ⟨before, t, after, rfl, hopens, hselect⟩ := (mem_singleSelects_run ..).1 h
    obtain ⟨hdepth, f, hf, hname, -⟩ := hopens.exists_frame
    simp only [StartTag.isSingleSelect, Bool.and_eq_true, decide_eq_true_eq] at hselect
    exact ⟨hdepth, f, hf, by rw [hname, hselect.1]⟩

/-- An end tag of whatever name takes the record of the innermost element with it, and the depth is free for others. -/
example :
    let events : List Event := [
      .startElement ⟨1, 9, none, none⟩ xhtml "div" (.ofPairs [("aria-activedescendant", "a")]),
      .endElement ⟨2, 9, none, none⟩ "" "p",
      .startElement ⟨3, 9, none, none⟩ xhtml "select" []]
    let s := ({} : State).run events
    s.pendingDescendants = [] ∧ s.singleSelects = [0] := by decide

end State

end MapMarkup.Rules
