import Mathlib.Data.List.Forall2
import Mathlib.Data.List.Infix
import MapMarkup.Proofs.ActiveDescendants

/-!
# What an element leaves behind

An element tells its parent about itself, and a selected option is noted in a `select` that may be any number of levels
further out. Nothing else of an element is to be seen in the frames around it when it has ended, whatever stands inside:
the frame of the parent has grown (`Frame.GrowsTo`), and those around the parent are as before but for that one note
(`Frame.AsBefore`). Both are transitive, so that an element is followed from its start over its content to its end, and
content element by element (`State.keepsAround_events`).

Of the records under the depths of open elements none is left by the element, and a record from before is dropped by the
start tags of the element alone (`Recording.Lawful.mem_run_element`). `State.grown_run_element` says all of this of a
state that any events have led to.
-/

namespace MapMarkup.Rules

open Event (NestsTo trackAll)
open Vocabulary

/-! ### Frames -/

namespace Frame

/-- The frame `g` is `f` as it was before, but if it is that of a `select`, it may have been noted that an option is
selected. -/
def AsBefore (f g : Frame) : Prop :=
  g = f ∨ f.isNamed "select" ∧ g = { f with options.selectedFound := true }

private theorem AsBefore.refl (f : Frame) : f.AsBefore f := .inl rfl

private theorem AsBefore.trans {f g h : Frame} (hfg : f.AsBefore g) (hgh : g.AsBefore h) : f.AsBefore h := by
  rcases hfg with rfl | ⟨hf, rfl⟩
  · exact hgh
  · rcases hgh with rfl | ⟨-, rfl⟩
    · exact .inr ⟨hf, rfl⟩
    · exact .inr ⟨hf, rfl⟩

/-- The frame `g` is `f` with what a child may have told the element. What the start tag of the element has settled and
the text of the element are the same; what has been found stays so, and axes are only added. -/
structure GrowsTo (f g : Frame) : Prop where
  bare_eq : g.bare = f.bare
  text_eq : g.text = f.text
  needed_eq : g.options.needed = f.options.needed
  hasAction_eq : g.extent.hasAction = f.extent.hasAction
  found : f.options.found → g.options.found
  valuelessFound : f.options.valuelessFound → g.options.valuelessFound
  selectedFound : g.options.selectedFound = f.options.selectedFound ∨ f.isNamed "select" ∧ g.options.selectedFound
  nonEmpty_eq : f.options.found → g.options.nonEmpty = f.options.nonEmpty
  zoomFound : f.extent.zoomFound → g.extent.zoomFound
  queryFound : f.extent.queryFound → g.extent.queryFound
  templateFound : f.extent.templateFound → g.extent.templateFound
  axes : f.extent.axes <+: g.extent.axes

/-- A frame grows in what it knows about options if nothing that has been found is lost. -/
private theorem growsTo_options {f : Frame} {options : OptionNotes} (hneeded : options.needed = f.options.needed)
    (hfound : f.options.found → options.found) (hvalueless : f.options.valuelessFound → options.valuelessFound)
    (hselected : options.selectedFound = f.options.selectedFound ∨ f.isNamed "select" ∧ options.selectedFound)
    (hnonEmpty : f.options.found → options.nonEmpty = f.options.nonEmpty) : f.GrowsTo { f with options } where
  bare_eq := rfl
  text_eq := rfl
  needed_eq := hneeded
  hasAction_eq := rfl
  found := hfound
  valuelessFound := hvalueless
  selectedFound := hselected
  nonEmpty_eq := hnonEmpty
  zoomFound := id
  queryFound := id
  templateFound := id
  axes := List.prefix_refl _

private theorem GrowsTo.refl (f : Frame) : f.GrowsTo f := by
  have hsame : f.GrowsTo { f with options := f.options } := growsTo_options rfl id id (.inl rfl) fun _ => rfl
  exact hsame

private theorem AsBefore.growsTo {f g : Frame} (h : f.AsBefore g) : f.GrowsTo g := by
  rcases h with rfl | ⟨hselect, rfl⟩
  · exact .refl g
  · exact growsTo_options rfl id id (.inr ⟨hselect, rfl⟩) fun _ => rfl

private theorem GrowsTo.isNamed_eq {f g : Frame} (h : f.GrowsTo g) (name : String) :
    g.isNamed name = f.isNamed name := by
  have hname : g.name = f.name := congrArg (·.name) h.bare_eq
  rw [isNamed, hname, isNamed]

private theorem GrowsTo.trans {f g h : Frame} (hfg : f.GrowsTo g) (hgh : g.GrowsTo h) : f.GrowsTo h where
  bare_eq := hgh.bare_eq.trans hfg.bare_eq
  text_eq := hgh.text_eq.trans hfg.text_eq
  needed_eq := hgh.needed_eq.trans hfg.needed_eq
  hasAction_eq := hgh.hasAction_eq.trans hfg.hasAction_eq
  found := hgh.found ∘ hfg.found
  valuelessFound := hgh.valuelessFound ∘ hfg.valuelessFound
  selectedFound := by
    rcases hgh.selectedFound with hsame | hselected
    · rw [hsame]
      exact hfg.selectedFound
    · rw [hfg.isNamed_eq] at hselected
      exact .inr hselected
  nonEmpty_eq hfound := (hgh.nonEmpty_eq (hfg.found hfound)).trans (hfg.nonEmpty_eq hfound)
  zoomFound := hgh.zoomFound ∘ hfg.zoomFound
  queryFound := hgh.queryFound ∘ hfg.queryFound
  templateFound := hgh.templateFound ∘ hfg.templateFound
  axes := hfg.axes.trans hgh.axes

private theorem growsTo_noteOption (t : StartTag) (f : Frame) : f.GrowsTo (noteOption t f) := by
  unfold noteOption
  split
  · rename_i hawaits
    -- A parent that waits for an option has not found one.
    have hnone : ¬ f.options.found = true := by
      simp only [awaitsOption, Bool.and_eq_true, Bool.not_eq_true'] at hawaits
      simp [hawaits.2.2]
    split
    · exact growsTo_options rfl id (fun _ => rfl) (.inl rfl) fun _ => rfl
    · split
      · exact .refl f
      · exact growsTo_options rfl id id (.inl rfl) fun hfound => absurd hfound hnone
  · exact .refl f

private theorem growsTo_noteChild (t : StartTag) (f : Frame) : f.GrowsTo (State.noteChild t f) := by
  have hextent (f : Frame) (e : ExtentNotes) (haction : e.hasAction = f.extent.hasAction)
      (hzoom : f.extent.zoomFound → e.zoomFound) (hquery : f.extent.queryFound → e.queryFound)
      (htemplate : f.extent.templateFound → e.templateFound) (haxes : f.extent.axes <+: e.axes) :
      f.GrowsTo { f with extent := e } :=
    { GrowsTo.refl f with
      hasAction_eq := haction
      zoomFound := hzoom
      queryFound := hquery
      templateFound := htemplate
      axes := haxes }
  refine (f.growsTo_noteOption t).trans (hextent _ _ rfl ?_ ?_ ?_ (List.prefix_append _ _))
  · exact fun h => Bool.or_eq_true_iff.2 (.inl h)
  · exact fun h => Bool.or_eq_true_iff.2 (.inl h)
  · exact fun h => Bool.or_eq_true_iff.2 (.inl h)

private theorem growsTo_noteOptionEnd (own f : Frame) : f.GrowsTo (noteOptionEnd own f) := by
  unfold noteOptionEnd
  split
  · exact .refl f
  · rename_i hnone
    dsimp only
    split
    · exact growsTo_options rfl (fun _ => rfl) id (.inl rfl) fun hfound => absurd hfound hnone
    · exact growsTo_options rfl (fun _ => rfl) id (.inl rfl) fun _ => rfl

end Frame

/-! ### All frames -/

/-- The frames after an element, if they have been `frames` before it: that of the parent has grown, the others are as
before. -/
inductive Grown : (frames frames' : List Frame) → Prop
  | nil : Grown [] []
  | cons {f g : Frame} {around around' : List Frame} (hparent : f.GrowsTo g)
    (haround : List.Forall₂ Frame.AsBefore around around') : Grown (f :: around) (g :: around')

private theorem asBefore_trans {frames frames' frames'' : List Frame} (h : List.Forall₂ Frame.AsBefore frames frames')
    (h' : List.Forall₂ Frame.AsBefore frames' frames'') : List.Forall₂ Frame.AsBefore frames frames'' := by
  induction h generalizing frames'' with
  | nil => exact h'
  | cons hf _ ih =>
    cases h' with
    | cons hg hrest => exact .cons (hf.trans hg) (ih hrest)

private theorem Grown.of_asBefore {frames frames' : List Frame} (h : List.Forall₂ Frame.AsBefore frames frames') :
    Grown frames frames' := by
  cases h with
  | nil => exact .nil
  | cons hf haround => exact .cons hf.growsTo haround

private theorem Grown.trans {frames frames' frames'' : List Frame} (h : Grown frames frames')
    (h' : Grown frames' frames'') :
    Grown frames frames'' := by
  cases h with
  | nil => exact h'
  | cons hf haround =>
    cases h' with
    | cons hg haround' => exact .cons (hf.trans hg) (asBefore_trans haround haround')

private theorem Grown.length_eq {frames frames' : List Frame} (h : Grown frames frames') :
    frames'.length = frames.length := by
  cases h with
  | nil => rfl
  | cons hf haround => rw [List.length_cons, List.length_cons, haround.length_eq]

private theorem grown_modifyHead {change : Frame → Frame} (h : ∀ f : Frame, f.GrowsTo (change f))
    (frames : List Frame) :
    Grown frames (frames.modifyHead change) := by
  cases frames with
  | nil => exact .nil
  | cons f around => exact .cons (h f) (List.forall₂_same.2 fun g _ => .refl g)

private theorem asBefore_noteSelected (frames : List Frame) :
    List.Forall₂ Frame.AsBefore frames (noteSelected frames) := by
  induction frames with
  | nil => exact .nil
  | cons f outer ih =>
    unfold noteSelected
    split
    · rename_i hselect
      exact .cons (.inr ⟨hselect, rfl⟩) (List.forall₂_same.2 fun g _ => .refl g)
    · exact .cons (.refl f) ih

private theorem asBefore_refl (frames : List Frame) : List.Forall₂ Frame.AsBefore frames frames :=
  List.forall₂_same.2 fun f _ => .refl f

namespace State

private theorem exists_grown_startElement (s : State) (locator : Locator) (uri name : String)
    (attributes : Attributes) :
    ∃ f outer, (s.next (.startElement locator uri name attributes)).frames = f :: outer ∧ Grown s.frames outer := by
  by_cases hu : uri = xhtml
  · subst hu
    let t : StartTag := ⟨locator, name, attributes⟩
    have hselected : Grown s.frames (if s.countsSelected t then noteSelected s.frames else s.frames) := by
      split
      · exact .of_asBefore (asBefore_noteSelected s.frames)
      · exact .of_asBefore (asBefore_refl s.frames)
    rw [next_start s t]
    exact ⟨_, _, rfl, hselected.trans (grown_modifyHead (Frame.growsTo_noteChild t) _)⟩
  · rw [next_startOther s locator name attributes hu]
    exact ⟨_, _, rfl, .of_asBefore (asBefore_refl s.frames)⟩

private theorem grown_framesAfterEnd (f : Frame) (uri name : String) (outer : List Frame) :
    Grown outer (framesAfterEnd f uri name outer) := by
  unfold framesAfterEnd
  split
  · exact grown_modifyHead (Frame.growsTo_noteOptionEnd f) outer
  · exact .of_asBefore (asBefore_refl outer)

/-- Whatever is open, the events leave the innermost element open, and the frames around its own as before. -/
def KeepsAround (events : List Event) : Prop :=
  ∀ (s : State) (f : Frame) (around : List Frame), s.frames = f :: around →
    ∃ g around', (s.run events).frames = g :: around' ∧ List.Forall₂ Frame.AsBefore around around'

/-- If the content of an element keeps what is around it, the element does so too, and its parent grows. -/
private theorem KeepsAround.grown {inside : List Event} (h : KeepsAround inside) (s : State)
    (locator locator' : Locator)
    (uri name : String) (attributes : Attributes) :
    Grown s.frames
      (s.run (.startElement locator uri name attributes :: inside ++ [.endElement locator' uri name])).frames := by
  obtain ⟨f, outer, hstart, hgrown⟩ := s.exists_grown_startElement locator uri name attributes
  obtain ⟨g, outer', hinside, hkept⟩ := h _ f outer hstart
  rw [List.cons_append, run_cons, run_append, run_cons, run_nil, next_end_cons hinside]
  exact (hgrown.trans (.of_asBefore hkept)).trans (grown_framesAfterEnd g uri name outer')

/-- Content keeps what is around the element that it stands in. -/
theorem keepsAround_events (content : Forest) : KeepsAround content.events := by
  induction content with
  | nil => exact fun s f around hs => ⟨f, around, hs, asBefore_refl around⟩
  | characters text rest ih =>
    intro s f around hs
    refine ih (s.next (.characters text)) (f.collect text) around ?_
    show s.frames.modifyHead _ = _
    rw [hs, List.modifyHead_cons]
  | reset rest ih => exact fun s f around hs => ih s.reset f around hs
  | sourceIsCss value rest ih => exact fun s f around hs => ih (s.next (.sourceIsCss value)) f around hs
  | element locator locator' uri name attributes inside rest ihInside ihRest =>
    intro s f around hs
    let element : List Event :=
      .startElement locator uri name attributes :: inside.events ++ [.endElement locator' uri name]
    have hevents : (Forest.element locator locator' uri name attributes inside rest).events =
        element ++ rest.events := by
      simp [element, Forest.events]
    have hgrown : Grown s.frames (s.run element).frames := ihInside.grown s locator locator' uri name attributes
    rw [hs] at hgrown
    -- The element has told the innermost one about itself; what is around that one is as before.
    generalize hafter : (s.run element).frames = after at hgrown
    cases hgrown with
    | cons hparent haround =>
      obtain ⟨g, around', hrest, hkept⟩ := ihRest (s.run element) _ _ hafter
      rw [hevents, run_append]
      exact ⟨g, around', hrest, asBefore_trans haround hkept⟩

end State

/-! ### Records -/

namespace Recording

variable {ρ : Type} {R : Recording ρ}

/-- Whether the record of an element is dropped depends on what the start tag of the element has settled. -/
private theorem Lawful.forall_drops_iff_of_bare (hR : R.Lawful) {s s' : State} {depth : Nat}
    (h : (s'.frameAt? depth).map Frame.bare = (s.frameAt? depth).map Frame.bare) (t : StartTag) :
    (∀ f, s'.frameAt? depth = some f → R.drops f t = false) ↔
      ∀ f, s.frameAt? depth = some f → R.drops f t = false := by
  have hbare (s : State) : (∀ f, s.frameAt? depth = some f → R.drops f t = false) ↔
      ∀ b, (s.frameAt? depth).map Frame.bare = some b → R.drops b t = false := by
    cases s.frameAt? depth with
    | none => simp
    | some f => simp [hR.drops_bare]
  rw [hbare, h, ← hbare]

/-- A record of an element that stays open is one from before that no start tag drops. -/
private theorem Lawful.mem_run_of_holdsOpen (hR : R.Lawful) {s : State} (hs : ∀ r ∈ R.records s, R.depthOf r < s.depth)
    {r : ρ} {events : List Event} (h : s.HoldsOpen (R.depthOf r) events) (hreset : .reset ∉ events) :
    r ∈ R.records (s.run events) ↔
      r ∈ R.records s ∧ ∀ t ∈ startTags events, ∀ f, s.frameAt? (R.depthOf r) = some f → R.drops f t = false := by
  induction events using List.reverseRecOn with
  | nil => simp [startTags]
  | append_singleton events e ih =>
    obtain ⟨hbefore, hafter⟩ := State.holdsOpen_concat_iff.1 h
    rw [List.mem_append, List.mem_singleton, not_or] at hreset
    have hopen : R.depthOf r < (s.run events).depth := hbefore events (List.prefix_refl _)
    have hnew : ¬ ∃ t, startTag? e = some t ∧ R.made? (s.run events).depth t = some r := by
      rintro ⟨t, -, hmade⟩
      exact Nat.ne_of_lt hopen (hR.depthOf_made hmade)
    have hdrops := hR.forall_drops_iff_of_bare hbefore.bare_frameAt?_run
    rw [State.run_append, State.run_cons, State.run_nil, hR.mem_next (hR.depthOf_lt_run hs events), or_iff_right hnew,
      ih hbefore hreset.1, forall_mem_startTags_concat]
    simp only [hdrops, hafter, ne_eq, Ne.symm hreset.2, not_false_eq_true, true_and, and_assoc]

/-- An element leaves no record of its own, and of the others those that its start tags do not drop. -/
theorem Lawful.mem_run_element (hR : R.Lawful) {s : State} (hs : ∀ r ∈ R.records s, R.depthOf r < s.depth)
    {outer : List ElementName} (hnames : s.frames.map (·.name) = outer.map knownName) {element : List Event}
    (h : NestsTo [] element []) (hreset : .reset ∉ element) (r : ρ) :
    r ∈ R.records (s.run element) ↔
      r ∈ R.records s ∧ ∀ t ∈ startTags element, ∀ f, s.frameAt? (R.depthOf r) = some f → R.drops f t = false := by
  have hdepth : (s.run element).depth = s.depth := by
    have hafter := congrArg List.length (State.names_run hnames element)
    have htrack : trackAll outer element = outer := (h.append_outer outer).trackAll_eq
    have hbefore := congrArg List.length hnames
    rw [htrack] at hafter
    simpa [State.depth] using hafter.trans hbefore.symm
  have hiff (hopen : R.depthOf r < s.depth) := hR.mem_run_of_holdsOpen hs
    (State.holdsOpen_of_nestsTo hnames h hopen) hreset
  constructor
  · intro hr
    exact (hiff (hdepth ▸ hR.depthOf_lt_run hs element r hr)).1 hr
  · rintro ⟨hr, hkept⟩
    exact (hiff (hs r hr)).2 ⟨hr, hkept⟩

end Recording

/-! ### Elements in a run -/

namespace State

/-- In a state that any events have led to, an element with whatever properly nested content leaves as many elements
open as before. The frame of its parent has grown, and those around the parent are as before, but that a `select` may
know of a selected option. The `select` elements in which one option can be selected are the same, and of the elements
that wait for their active descendant those are left whose descendant is none of the elements that have started. -/
theorem grown_run_element (sourceIsCss : Bool) (past : List Event) (locator locator' : Locator) (uri name : String)
    (attributes : Attributes) {inside : List Event} (h : NestsTo [] inside []) (hreset : .reset ∉ inside) :
    let s := ({ sourceIsCss } : State).run past
    let element := .startElement locator uri name attributes :: inside ++ [.endElement locator' uri name]
    let s' := s.run element
    s'.depth = s.depth ∧ Grown s.frames s'.frames ∧
      (∀ depth, depth ∈ s'.singleSelects ↔ depth ∈ s.singleSelects) ∧
      ∀ r, r ∈ s'.pendingDescendants ↔
        r ∈ s.pendingDescendants ∧ ∀ t ∈ startTags element, s.isSettledBy t.attributes.ids r.1 = false := by
  intro s element s'
  have hnames : s.frames.map (·.name) = (trackAll [] past).map knownName := names_run rfl past
  have hend : NestsTo [(uri, name)] [.endElement locator' uri name] [] :=
    (Event.nestsTo_cons rfl _).2 ⟨[], if_pos rfl, rfl⟩
  have helement : NestsTo [] element [] :=
    (Event.nestsTo_cons rfl _).2 ⟨[(uri, name)], rfl, (h.append_outer [(uri, name)]).append hend⟩
  have hkept : .reset ∉ element := by simp [element, hreset]
  obtain ⟨content, rfl⟩ := Event.nestsTo_nil_iff.1 h
  have hgrown : Grown s.frames s'.frames :=
    (keepsAround_events content).grown s locator locator' uri name attributes
  refine ⟨hgrown.length_eq, hgrown, fun depth => ?_, fun r => ?_⟩
  · have hlawful := Recording.lawful_singleSelects
    refine (hlawful.mem_run_element (hlawful.depthOf_lt sourceIsCss past) hnames helement hkept depth).trans ?_
    exact and_iff_left fun t _ f _ => rfl
  · have hlawful := Recording.lawful_pendingDescendants
    refine (hlawful.mem_run_element (hlawful.depthOf_lt sourceIsCss past) hnames helement hkept r).trans ?_
    refine and_congr_right fun _ => forall₂_congr fun t _ => ?_
    show (∀ f, s.frameAt? r.1 = some f → f.activeDescendant.any t.attributes.ids.contains = false) ↔ _
    rw [isSettledBy]
    cases s.frameAt? r.1 with
    | none => simp
    | some f => simp

/-- A selected option with an ID, and another one in a `select` of its own. -/
def optionsAndSelect : Forest :=
  .onLine 5 "option" [("selected", ""), ("id", "a")] (.characters "A" .nil) <|
  .onLine 6 "select" [("aria-activedescendant", "b")] (.onLine 7 "option" [("selected", "")] .nil .nil) .nil

theorem grown_run_element_innerSelect :
    let past := [.startDocument, .startElement ⟨1, 9, none, none⟩ xhtml "select" [],
      .startElement ⟨2, 9, none, none⟩ xhtml "div" (.ofPairs [("aria-activedescendant", "a")]),
      .startElement ⟨3, 9, none, none⟩ "" "p" []]
    let s := ({} : State).run past
    let s' := s.run (.startElement ⟨4, 40, none, none⟩ xhtml "optgroup" [] :: optionsAndSelect.events ++
      [.endElement ⟨8, 50, none, none⟩ xhtml "optgroup"])
    NestsTo [] optionsAndSelect.events [] ∧ .reset ∉ optionsAndSelect.events ∧
    (s'.depth = s.depth ∧ Grown s.frames s'.frames ∧
      (∀ depth, depth ∈ s'.singleSelects ↔ depth ∈ s.singleSelects) ∧
      ∀ r, r ∈ s'.pendingDescendants → r ∈ s.pendingDescendants) ∧
    s.depth = 3 ∧ s.frames.map (·.options.selectedFound) = [false, false, false] ∧
      s'.frames.map (·.options.selectedFound) = [false, false, true] ∧
    s.singleSelects = [0] ∧ s.pendingDescendants = [(1, ⟨2, 9, none, none⟩)] ∧ s'.pendingDescendants = [] := by
  intro past s s'
  have hreset : .reset ∉ optionsAndSelect.events := by decide +kernel
  have hnested : NestsTo [] optionsAndSelect.events [] := optionsAndSelect.nestsTo_events
  obtain ⟨hdepth, hgrown, hselects, hpending⟩ := grown_run_element false past ⟨4, 40, none, none⟩
    ⟨8, 50, none, none⟩ xhtml "optgroup" [] hnested hreset
  refine ⟨hnested, hreset, ⟨hdepth, hgrown, hselects, fun r hr => ((hpending r).1 hr).1⟩, ?_⟩
  decide +kernel

end State

end MapMarkup.Rules
