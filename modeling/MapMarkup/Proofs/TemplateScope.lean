import Mathlib.Data.List.DropRight
import MapMarkup.Proofs.Nesting
import MapMarkup.Proofs.Registration

/-!
# The scope of template variables

A variable in the template of a link is to be bound by the name of an input of the same `extent`. What is kept for this
is not told apart by `extent`, but forgotten at each end of one. So at the end of an `extent` the variables of the links
since the end of the last `extent` are reported unless they are names of inputs since then (`unbound`), and among these
links and inputs there may be some that stand before the `extent`.

`State.unboundVariables_of_extent` says that of an `extent` without others in it, and under which condition the links
and inputs before it make no difference: they must not leave a variable unbound, and must not bind one that the inputs
inside do not bind.
-/

namespace MapMarkup

open Event (emptyElement nest? nestAll?)

namespace Event

private theorem isContent_of_nest? {opened opened' : List ElementName} {e : Event} (h : nest? opened e = some opened') :
    e.isContent := by
  cases e with
  | startElement | endElement | characters => rfl
  | startDocument | endDocument | reset | sourceIsCss => simp [nest?] at h

private theorem isContent_of_nestAll? {opened opened' : List ElementName} {events : List Event}
    (h : nestAll? opened events = some opened') : ∀ e ∈ events, e.isContent := by
  induction events generalizing opened with
  | nil => simp
  | cons e events ih =>
    obtain ⟨between, he, hrest⟩ := nestAll?_eq_of_cons h
    intro e' he'
    rcases List.mem_cons.1 he' with rfl | he'
    · exact isContent_of_nest? he
    · exact ih hrest e' he'

theorem eq_of_endsExtent {e : Event} (h : e.endsExtent) :
    ∃ locator, e = endElement locator Vocabulary.xhtml "extent" := by
  cases e with
  | endElement locator uri name =>
    simp only [endsExtent, Bool.and_eq_true, decide_eq_true_eq] at h
    exact ⟨locator, by rw [h.1, h.2]⟩
  | startDocument | endDocument | reset | startElement | characters | sourceIsCss => simp [endsExtent] at h

/-- The last ones of some events, from behind the last end of an `extent` on. -/
def sinceExtent (events : List Event) : List Event :=
  events.rtakeWhile fun e => !e.endsExtent

private theorem not_endsExtent_of_mem_sinceExtent {events : List Event} {e : Event} (h : e ∈ sinceExtent events) :
    ¬e.endsExtent := by
  simpa using List.mem_rtakeWhile_imp h

private theorem mem_of_mem_sinceExtent {events : List Event} {e : Event} (h : e ∈ sinceExtent events) : e ∈ events :=
  (List.rtakeWhile_suffix _ events).subset h

private theorem sinceExtent_cases (events : List Event) :
    sinceExtent events = events ∨
    ∃ before locator, events = before ++ endElement locator Vocabulary.xhtml "extent" :: sinceExtent events := by
  have hsplit : events.rdropWhile (fun e => !e.endsExtent) ++ sinceExtent events = events :=
    List.rdropWhile_append_rtakeWhile
  rcases List.eq_nil_or_concat (events.rdropWhile fun e => !e.endsExtent) with hnil | ⟨before, e, hlast⟩
  · left
    rw [hnil] at hsplit
    exact hsplit
  · right
    have hend := List.rdropWhile_last_not (fun e : Event => !e.endsExtent) events (by simp [hlast])
    have he : e.endsExtent := by simpa [hlast] using hend
    obtain ⟨locator, rfl⟩ := eq_of_endsExtent he
    rw [hlast, List.concat_eq_append, List.append_assoc] at hsplit
    exact ⟨before, locator, hsplit.symm⟩

end Event

namespace Rules

open Vocabulary

/-- The variables in the templates of some links, as far as they are not the name of one of some inputs. -/
def unbound (tags : List StartTag) : List Reference :=
  dangling StartTag.inputNames StartTag.variableReferences tags

/-- A tag that is neither a link nor an input does not count. -/
private theorem unbound_append_cons (outside inside : List StartTag) {t : StartTag} (hl : t.name ≠ "link")
    (hs : t.name ≠ "select") (hi : t.name ≠ "input") :
    unbound (outside ++ t :: inside) = unbound (outside ++ inside) := by
  have hnames : t.inputNames = [] := by simp [StartTag.inputNames, hs, hi]
  have hvariables : t.variableReferences = [] := by
    simp [StartTag.variableReferences, StartTag.templateVariables, hl]
  simp only [unbound, dangling, List.flatMap_append, List.flatMap_cons, hnames, hvariables, List.nil_append]

/-- The variable without an input that a notice is about. -/
def Notice.unboundVariable? : Notice → Option Reference
  | violation (.unboundVariable name) locator => some ⟨locator, name⟩
  | _ => none

/-- The variables without an input that some notices are about, in order. -/
def unboundVariables (notices : List Notice) : List Reference :=
  notices.filterMap Notice.unboundVariable?

private theorem unboundVariables_append (ns ns' : List Notice) :
    unboundVariables (ns ++ ns') = unboundVariables ns ++ unboundVariables ns' :=
  List.filterMap_append

/-! ### Content without an `extent` -/

/-- No `extent` is open after an event, or ends there, if none is open before it and it does not start one. -/
private theorem not_endsExtent_of_nest? {outer between : List ElementName} {e : Event} (ho : (xhtml, "extent") ∉ outer)
    (h : nest? outer e = some between) (hs : ∀ t, startTag? e = some t → t.name ≠ "extent") :
    (xhtml, "extent") ∉ between ∧ ¬e.endsExtent := by
  cases e with
  | startElement locator uri name attributes =>
    obtain rfl := Option.some.inj h
    have hne : (xhtml, "extent") ≠ (uri, name) := by
      rintro ⟨⟩
      exact hs _ (startTag?_startElement locator "extent" attributes) rfl
    exact ⟨by simp [hne, ho], by simp [Event.endsExtent]⟩
  | endElement locator uri name =>
    obtain rfl := Event.eq_cons_of_nest?_endElement h
    rw [List.mem_cons, not_or] at ho
    refine ⟨ho.2, ?_⟩
    intro hend
    obtain ⟨locator', he⟩ := Event.eq_of_endsExtent hend
    simp only [Event.endElement.injEq] at he
    exact ho.1 (by rw [he.2.1, he.2.2])
  | characters text =>
    obtain rfl := Option.some.inj h
    exact ⟨ho, by simp [Event.endsExtent]⟩
  | startDocument | endDocument | reset | sourceIsCss => simp [nest?] at h

private theorem not_endsExtent_of_nestAll? {outer opened : List ElementName} {events : List Event}
    (ho : (xhtml, "extent") ∉ outer) (h : nestAll? outer events = some opened)
    (hs : ∀ t ∈ startTags events, t.name ≠ "extent") : ∀ e ∈ events, ¬e.endsExtent := by
  induction events generalizing outer with
  | nil => simp
  | cons e events ih =>
    obtain ⟨between, he, hrest⟩ := Event.nestAll?_eq_of_cons h
    have hfirst : ∀ t, startTag? e = some t → t.name ≠ "extent" := by
      intro t ht
      exact hs t (by rw [startTags_cons_of_some ht]; exact List.mem_cons_self)
    have hlater : ∀ t ∈ startTags events, t.name ≠ "extent" := by
      intro t ht
      exact hs t (mem_startTags_cons e ht)
    obtain ⟨hbetween, hend⟩ := not_endsExtent_of_nest? ho he hfirst
    intro e' he'
    rcases List.mem_cons.1 he' with rfl | he'
    · exact hend
    · exact ih hbetween hrest hlater e' he'

namespace State

/-! ### What is known about variables -/

/-- What is known about variables dates from behind the last end of an `extent`. -/
private theorem exists_run_sinceExtent (s : State) {events : List Event} {opened : List ElementName}
    (h : nestAll? [] events = some opened) :
    ∃ s' : State, s'.inputs = {} ∧ s.clear.run events = s'.run (Event.sinceExtent events) := by
  rcases Event.sinceExtent_cases events with hsince | ⟨before, locator, hsplit⟩
  · rw [hsince]
    exact ⟨s.clear, rfl, rfl⟩
  · rw [hsplit] at h
    obtain ⟨between, hbefore, hrest⟩ := Event.nestAll?_eq_of_append h
    obtain ⟨between', he, -⟩ := Event.nestAll?_eq_of_cons hrest
    -- The `extent` is among the open elements when it ends, so that its end is not ignored.
    obtain rfl := Event.eq_cons_of_nest?_endElement he
    have hdepth : (s.clear.run before).depth = between'.length + 1 := depth_run hbefore rfl
    refine ⟨_, inputs_next_endExtent (s := s.clear.run before) (by omega) locator, ?_⟩
    conv_lhs => rw [hsplit]
    rw [run_append, run_cons]

/-- Content in which no `extent` ends decides together with that since the last one. -/
private theorem unresolved_inputs_run (s : State) {before inside : List Event} {opened : List ElementName}
    (hbefore : nestAll? [] before = some opened) (hinside : ∀ e ∈ inside, e.isContent ∧ ¬e.endsExtent) :
    (s.clear.run (before ++ inside)).inputs.unresolved =
      unbound (startTags (Event.sinceExtent before) ++ startTags inside) := by
  have hall : ∀ e ∈ Event.sinceExtent before ++ inside, e.isContent ∧ ¬e.endsExtent := by
    intro e he
    rcases List.mem_append.1 he with he | he
    · exact ⟨Event.isContent_of_nestAll? hbefore e (Event.mem_of_mem_sinceExtent he),
        Event.not_endsExtent_of_mem_sinceExtent he⟩
    · exact hinside e he
  obtain ⟨s', hs', hrun⟩ := s.exists_run_sinceExtent hbefore
  rw [run_append, hrun, ← run_append, registers_inputs.unresolved_run hs' hall, startTags_append]
  rfl

/-- Of what the end of an `extent` says, the rest is not about variables. -/
private theorem unboundVariables_extentNotices (s : State) (f : Frame) (locator : Locator) :
    unboundVariables (extentNotices s f locator) = s.inputs.unresolved := by
  have hzoom : unboundVariables (if f.extent.zoomFound then [] else [.violation .extentWithoutZoom locator]) = [] := by
    split <;> rfl
  have haxes : unboundVariables (if f.extent.axes = [] then [.violation .extentWithoutLocation locator]
      else (coordinateSystems.filter (lacksAxis f.extent.axes)).map fun _ =>
        .violation .extentWithoutAxisPair locator) = [] := by
    split
    · rfl
    · apply List.filterMap_eq_nil_iff.2
      intro n hn
      obtain ⟨system, -, rfl⟩ := List.mem_map.1 hn
      rfl
  have haction : unboundVariables (if f.extent.hasAction && f.extent.templateFound
      then [.violation .extentActionWithTemplates locator] else []) = [] := by
    split <;> rfl
  have hvariables : unboundVariables
      (s.inputs.unresolved.map fun r => .violation (.unboundVariable r.name) r.locator) = s.inputs.unresolved := by
    simp [unboundVariables, Notice.unboundVariable?, Function.comp_def]
  unfold extentNotices
  rw [unboundVariables_append, unboundVariables_append, unboundVariables_append, hzoom, haxes, haction, hvariables,
    List.nil_append, List.nil_append, List.nil_append]

theorem unboundVariables_notices {s : State} (h : s.depth ≠ 0) (locator : Locator) :
    unboundVariables (s.notices (.endElement locator xhtml "extent")) = s.inputs.unresolved := by
  rcases hf : s.frames with _ | ⟨f, outer⟩
  · simp [depth, hf] at h
  · have hnotices : s.notices (.endElement locator xhtml "extent") = extentNotices s f locator ++
        (s.pendingDescendants.lookup outer.length).toList.map (.violation .activeDescendantElsewhere ·) := by
      simp [notices, hf, endNotices, elementNotices]
    rw [hnotices, unboundVariables_append, unboundVariables_extentNotices]
    cases s.pendingDescendants.lookup outer.length <;> simp [unboundVariables, Notice.unboundVariable?]

/-- At the end of an `extent` without others in it the variables of the links since the last `extent` are reported that
no input since then has as its name. So the links and inputs of the `extent` itself decide alone if and only if those
before it leave no variable unbound and give no name that is missing inside. -/
theorem unboundVariables_of_extent (s : State) {before inside : List Event} {opened : List ElementName}
    (hbefore : nestAll? [] before = some opened) (hinside : nestAll? [] inside = some [])
    (hextent : ∀ t ∈ startTags inside, t.name ≠ "extent") (locator locator' : Locator) (attributes : Attributes) :
    let outside := startTags (Event.sinceExtent before)
    let reached := s.run (.startDocument :: before ++ .startElement locator xhtml "extent" attributes :: inside)
    let reported := unboundVariables (reached.notices (.endElement locator' xhtml "extent"))
    reported = unbound (outside ++ startTags inside) ∧
      (reported = unbound (startTags inside) ↔
        (∀ r ∈ outside.flatMap StartTag.variableReferences,
          r.name ∈ (outside ++ startTags inside).flatMap StartTag.inputNames) ∧
        ∀ r ∈ unbound (startTags inside), r.name ∉ outside.flatMap StartTag.inputNames) := by
  intro outside reached reported
  have hreported : reported = unbound (outside ++ startTags inside) := by
    have hnested : nestAll? [] (before ++ .startElement locator xhtml "extent" attributes :: inside) =
        some ((xhtml, "extent") :: opened) := by
      rw [Event.nestAll?_append, hbefore, Option.bind_some, Event.nestAll?_cons]
      exact Event.nestAll?_append_outer hinside _
    have hdepth : (s.clear.run (before ++ .startElement locator xhtml "extent" attributes :: inside)).depth ≠ 0 := by
      rw [depth_run hnested rfl]
      exact Nat.succ_ne_zero opened.length
    have hquiet : ∀ e ∈ Event.startElement locator xhtml "extent" attributes :: inside,
        e.isContent ∧ ¬e.endsExtent := by
      intro e he
      rcases List.mem_cons.1 he with rfl | he
      · exact ⟨rfl, by simp [Event.endsExtent]⟩
      · exact ⟨Event.isContent_of_nestAll? hinside e he, not_endsExtent_of_nestAll? (by simp) hinside hextent e he⟩
    have hreached : reported = _ := (unboundVariables_notices hdepth locator').trans
      (s.unresolved_inputs_run hbefore hquiet)
    rw [hreached, startTags_cons_of_some (startTag?_startElement locator "extent" attributes)]
    exact unbound_append_cons outside (startTags inside) (by simp) (by simp) (by simp)
  refine ⟨hreported, ?_⟩
  rw [hreported]
  exact dangling_append_eq_iff _ _ _ _

/-- A link whose template has the variable `z`. -/
def templateLink (line : Nat) : List Event := emptyElement line "link" [("rel", "tile"), ("tref", "\x7bz\x7d")]

/-- A `select` with the name `z`. -/
def namedSelect (line : Nat) : List Event := emptyElement line "select" [("name", "z")]

/-- A variable before an `extent` counts at its end, although the `extent` itself has links and inputs. -/
theorem unboundVariables_of_linkBefore :
    let inside := emptyElement 3 "link" [("tref", "\x7by\x7d/\x7bx\x7d")] ++ emptyElement 4 "input" [("name", "x")]
    nestAll? [] (templateLink 1) = some [] ∧ nestAll? [] inside = some [] ∧
    (∀ t ∈ startTags inside, t.name ≠ "extent") ∧
    unboundVariables ((({} : State).run (.startDocument :: templateLink 1 ++
      .startElement ⟨2, 9, none, none⟩ xhtml "extent" [] :: inside)).notices
        (.endElement ⟨5, 10, none, none⟩ xhtml "extent")) =
      [⟨⟨1, 40, none, none⟩, "z"⟩, ⟨⟨3, 40, none, none⟩, "y"⟩] := by
  intro inside
  have hbefore : nestAll? [] (templateLink 1) = some [] := by decide
  have hinside : nestAll? [] inside = some [] := by decide
  have hextent : ∀ t ∈ startTags inside, t.name ≠ "extent" := by decide
  obtain ⟨hreported, -⟩ :=
    unboundVariables_of_extent {} hbefore hinside hextent ⟨2, 9, none, none⟩ ⟨5, 10, none, none⟩ []
  refine ⟨hbefore, hinside, hextent, hreported.trans ?_⟩
  decide +kernel

/-- A `select` before an `extent` hides a variable that no input inside has as its name. -/
theorem unboundVariables_ne_of_selectBefore :
    nestAll? [] (namedSelect 1) = some [] ∧ nestAll? [] (templateLink 3) = some [] ∧
    (∀ t ∈ startTags (templateLink 3), t.name ≠ "extent") ∧
    unboundVariables ((({} : State).run (.startDocument :: namedSelect 1 ++
      .startElement ⟨2, 9, none, none⟩ xhtml "extent" [] :: templateLink 3)).notices
        (.endElement ⟨4, 10, none, none⟩ xhtml "extent")) ≠ unbound (startTags (templateLink 3)) := by
  decide +kernel

end State

end Rules

end MapMarkup
