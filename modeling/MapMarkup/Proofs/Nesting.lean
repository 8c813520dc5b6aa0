import MapMarkup.Proofs.Run

/-!
# Properly nested events

A sequence of events is properly nested if every end is that of the innermost element that has been started and not
been ended, with the same URI and name, and if nothing but elements and character data occurs. `Event.nestAll?` gives
the elements that are open afterwards. The depth of the rules is the number of these (`State.depth_run`).
-/

namespace MapMarkup

/-- The URI and the name of an element. -/
abbrev ElementName : Type := String × String

namespace Event

/-- The open elements after an event, innermost first, if the event is properly nested. -/
def nest? (opened : List ElementName) : Event → Option (List ElementName)
  | startElement _ uri name _ => some ((uri, name) :: opened)
  | endElement _ uri name =>
    match opened with
    | [] => none
    | e :: outer => if e = (uri, name) then some outer else none
  | characters _ => some opened
  | startDocument | endDocument | reset | sourceIsCss _ => none

/-- The open elements after several events, if the events are properly nested. -/
def nestAll? (opened : List ElementName) (events : List Event) : Option (List ElementName) :=
  events.foldlM nest? opened

@[simp] theorem nestAll?_nil (opened : List ElementName) : nestAll? opened [] = some opened := rfl

theorem nestAll?_cons (opened : List ElementName) (e : Event) (events : List Event) :
    nestAll? opened (e :: events) = (nest? opened e).bind (nestAll? · events) := rfl

theorem nestAll?_append (opened : List ElementName) (es fs : List Event) :
    nestAll? opened (es ++ fs) = (nestAll? opened es).bind (nestAll? · fs) :=
  List.foldlM_append

theorem nestAll?_concat {opened between : List ElementName} {es : List Event} (h : nestAll? opened es = some between)
    (e : Event) : nestAll? opened (es ++ [e]) = nest? between e := by
  rw [nestAll?_append, h, Option.bind_some, nestAll?_cons]
  cases nest? between e <;> rfl

theorem nestAll?_eq_of_cons {opened opened' : List ElementName} {e : Event} {events : List Event}
    (h : nestAll? opened (e :: events) = some opened') :
    ∃ between, nest? opened e = some between ∧ nestAll? between events = some opened' :=
  Option.bind_eq_some_iff.1 h

theorem nestAll?_eq_of_append {opened opened' : List ElementName} {es fs : List Event}
    (h : nestAll? opened (es ++ fs) = some opened') :
    ∃ between, nestAll? opened es = some between ∧ nestAll? between fs = some opened' := by
  rw [nestAll?_append] at h
  exact Option.bind_eq_some_iff.1 h

/-- The events are properly nested and lead from the open elements `outer` to `opened`, and character data stands inside
elements only. -/
structure Content (outer : List ElementName) (events : List Event) (opened : List ElementName) : Prop where
  nested : nestAll? outer events = some opened
  enclosed : ∀ before text after, events = before ++ characters text :: after → nestAll? outer before ≠ some []

theorem Content.nil (opened : List ElementName) : Content opened [] opened :=
  ⟨rfl, by simp⟩

theorem Content.singleton {outer opened : List ElementName} {e : Event} (h : nest? outer e = some opened)
    (ht : ∀ text, e = characters text → outer ≠ []) : Content outer [e] opened := by
  constructor
  · simp [nestAll?_cons, h]
  · intro before text after he
    rcases before with _ | ⟨d, before⟩
    · obtain ⟨rfl, -⟩ := List.cons.inj he
      simpa using ht text rfl
    · simp at he

theorem Content.append {outer between opened : List ElementName} {es fs : List Event} (he : Content outer es between)
    (hf : Content between fs opened) : Content outer (es ++ fs) opened := by
  constructor
  · rw [nestAll?_append, he.nested, Option.bind_some, hf.nested]
  · intro before text after h
    rcases List.append_eq_append_iff.1 h with ⟨rest, rfl, hrest⟩ | ⟨rest, hes, hrest⟩
    · rw [nestAll?_append, he.nested]
      exact hf.enclosed rest text after hrest
    · rcases rest with _ | ⟨d, rest⟩
      · rw [List.append_nil] at hes
        rw [← hes, he.nested]
        exact hf.enclosed [] text after hrest.symm
      · obtain ⟨rfl, -⟩ := List.cons.inj hrest
        exact he.enclosed before text rest hes

/-- An element without content. -/
theorem Content.emptyElement (outer : List ElementName) (locator locator' : Locator) (uri name : String)
    (attributes : Attributes) :
    Content outer [startElement locator uri name attributes, endElement locator' uri name] outer := by
  have hstart : Content outer [startElement locator uri name attributes] ((uri, name) :: outer) :=
    .singleton rfl (by simp)
  have hend : Content ((uri, name) :: outer) [endElement locator' uri name] outer := .singleton (if_pos rfl) (by simp)
  exact hstart.append hend

private theorem nest?_append {opened opened' : List ElementName} {e : Event} (h : nest? opened e = some opened')
    (outer : List ElementName) : nest? (opened ++ outer) e = some (opened' ++ outer) := by
  cases e with
  | startElement locator uri name attributes =>
    obtain rfl := Option.some.inj h
    rfl
  | endElement locator uri name =>
    rcases opened with _ | ⟨d, opened⟩
    · simp [nest?] at h
    · by_cases hd : d = (uri, name)
      · simp only [nest?, hd, ↓reduceIte, Option.some.injEq] at h
        simp only [List.cons_append, nest?, hd, ↓reduceIte, h]
      · simp [nest?, hd] at h
  | characters text =>
    obtain rfl := Option.some.inj h
    rfl
  | startDocument | endDocument | reset | sourceIsCss => simp [nest?] at h

/-- What is properly nested is so inside any elements. -/
theorem nestAll?_append_outer {opened opened' : List ElementName} {events : List Event}
    (h : nestAll? opened events = some opened') (outer : List ElementName) :
    nestAll? (opened ++ outer) events = some (opened' ++ outer) := by
  induction events generalizing opened with
  | nil =>
    obtain rfl := Option.some.inj h
    rfl
  | cons e events ih =>
    obtain ⟨between, he, hrest⟩ := nestAll?_eq_of_cons h
    rw [nestAll?_cons, nest?_append he outer]
    exact ih hrest

/-- A properly nested end closes an element. -/
theorem eq_cons_of_nest?_endElement {opened opened' : List ElementName} {locator : Locator} {uri name : String}
    (h : nest? opened (endElement locator uri name) = some opened') : opened = (uri, name) :: opened' := by
  rcases opened with _ | ⟨e, outer⟩
  · simp [nest?] at h
  · by_cases he : e = (uri, name)
    · simp only [nest?, he, ↓reduceIte, Option.some.injEq] at h
      rw [he, h]
    · simp [nest?, he] at h

end Event

namespace Rules.State

open Event (nest? nestAll?)

@[simp] private theorem length_noteSelected (frames : List Frame) : (noteSelected frames).length = frames.length := by
  induction frames with
  | nil => rfl
  | cons f outer ih =>
    unfold noteSelected
    split
    · rfl
    · simp only [List.length_cons, ih]

theorem depth_start (s : State) (t : StartTag) : (s.start t).depth = s.depth + 1 := by
  simp only [depth, start, framesAfter, List.length_cons, List.length_modifyHead]
  split
  · rw [length_noteSelected]
  · rfl

theorem depth_next_startElement (s : State) (locator : Locator) (uri name : String) (attributes : Attributes) :
    (s.next (.startElement locator uri name attributes)).depth = s.depth + 1 := by
  by_cases h : uri = Vocabulary.xhtml
  · rw [h, next_start s ⟨locator, name, attributes⟩, depth_start]
  · rw [next_startOther s locator name attributes h]; rfl

theorem depth_next_endElement (s : State) (locator : Locator) (uri name : String) :
    (s.next (.endElement locator uri name)).depth = s.depth - 1 := by
  rcases h : s.frames with _ | ⟨f, outer⟩
  · simp [next_end_nil h, depth, h]
  · rw [next_end_cons h]
    simp only [depth, finish, framesAfterEnd, h, List.length_cons, Nat.add_sub_cancel]
    split
    · exact List.length_modifyHead
    · rfl

theorem depth_next_characters (s : State) (text : String) : (s.next (.characters text)).depth = s.depth := by
  simp [next, depth]

/-- A properly nested event changes the depth as it changes the number of open elements. -/
private theorem depth_next {s : State} {e : Event} {opened opened' : List ElementName}
    (h : nest? opened e = some opened')
    (hs : s.depth = opened.length) : (s.next e).depth = opened'.length := by
  cases e with
  | startElement locator uri name attributes =>
    obtain rfl := Option.some.inj h
    rw [depth_next_startElement, hs, List.length_cons]
  | endElement locator uri name =>
    obtain rfl := Event.eq_cons_of_nest?_endElement h
    rw [depth_next_endElement, hs, List.length_cons, Nat.add_sub_cancel]
  | characters text =>
    obtain rfl := Option.some.inj h
    rw [depth_next_characters, hs]
  | startDocument | endDocument | reset | sourceIsCss => simp [nest?] at h

/-- Along properly nested events the depth is the number of open elements. -/
theorem depth_run {s : State} {events : List Event} {opened opened' : List ElementName}
    (h : nestAll? opened events = some opened') (hs : s.depth = opened.length) :
    (s.run events).depth = opened'.length := by
  induction events generalizing s opened with
  | nil => obtain rfl := Option.some.inj h; exact hs
  | cons e events ih =>
    obtain ⟨between, he, hrest⟩ := Event.nestAll?_eq_of_cons h
    exact ih hrest (depth_next he hs)

/-! ### The configuration -/

private theorem sourceIsCss_next {s : State} {e : Event} {opened opened' : List ElementName}
    (h : nest? opened e = some opened') : (s.next e).sourceIsCss = s.sourceIsCss := by
  cases e with
  | startElement locator uri name attributes =>
    by_cases hu : uri = Vocabulary.xhtml
    · rw [hu, next_start s ⟨locator, name, attributes⟩]
      rfl
    · rw [next_startOther s locator name attributes hu]
      rfl
  | endElement locator uri name =>
    rcases hf : s.frames with _ | ⟨f, outer⟩
    · rw [next_end_nil hf]
    · rw [next_end_cons hf]
      rfl
  | characters text => rfl
  | startDocument | endDocument | reset | sourceIsCss => simp [nest?] at h

theorem sourceIsCss_run {s : State} {events : List Event} {opened opened' : List ElementName}
    (h : nestAll? opened events = some opened') : (s.run events).sourceIsCss = s.sourceIsCss := by
  induction events generalizing s opened with
  | nil => rfl
  | cons e events ih =>
    obtain ⟨between, he, hrest⟩ := Event.nestAll?_eq_of_cons h
    rw [run_cons, ih hrest, sourceIsCss_next he]

end Rules.State

end MapMarkup
