import MapMarkup.Proofs.AttributeOrder
import MapMarkup.Proofs.Forest
import MapMarkup.Proofs.Journal
import MapMarkup.Proofs.OpenRecords

/-!
# What the CSS parser is asked

The CSS parser is asked at two kinds of event: at a start tag for each of its `style` attributes, and at the end of a
`style` element for the element's own text. To say what this text is it is enough to keep for each open element what has
come while it was the innermost one (`OpenText`); of these texts the frames of the rules have those of `style` elements
(`State.styleTexts_next`). So a run of events in which each end is that of the innermost open element asks for
`requests` one after the other, whatever the parser answers and whatever it does besides (`Checker.feedAll_requests`).
-/

namespace MapMarkup

open Rules (StartTag State Notice)
open Vocabulary (xhtml)

/-! ### What is to be asked -/

/-- The property whose use is counted if the answer is not empty. -/
def CssRequest.property : CssRequest → String
  | stylesheet _ => Vocabulary.styleElementErrors
  | styleAttribute _ _ => Vocabulary.styleAttributeErrors

/-- An open element with the text that has come while it was the innermost one. -/
structure OpenText where
  element : ElementName
  text : String
deriving DecidableEq, Repr

/-- The text of a `style` element as it is to be read, without a line feed at its start. -/
def withoutLineFeed (text : String) : String :=
  if text.toList.head? = some '\n' then .ofList text.toList.tail else text

namespace Event

/-- The open elements with their texts after an event, innermost first. -/
def trackTexts (opened : List OpenText) : Event → List OpenText
  | startDocument | endDocument => []
  | startElement _ uri name _ => ⟨(uri, name), ""⟩ :: opened
  | endElement .. => opened.tail
  | characters text => opened.modifyHead fun o => { o with text := o.text ++ text }
  | reset | sourceIsCss _ => opened

/-- What is to be asked at an event in front of which there are these open elements. -/
def requestsAt (opened : List OpenText) : Event → List CssRequest
  | startElement locator uri _ attributes =>
    if uri = xhtml then
      (attributes.filter fun a => a.name = "style" && a.uri = "").map fun a => .styleAttribute a.value locator.line
    else []
  | endElement .. =>
    (opened.head?.toList.filter (·.element = (xhtml, "style"))).map fun o => .stylesheet (withoutLineFeed o.text)
  | startDocument | endDocument | characters _ | reset | sourceIsCss _ => []

/-- What is to be asked at several events, in order. -/
def requests (opened : List OpenText) : List Event → List CssRequest
  | [] => []
  | e :: events => e.requestsAt opened ++ requests (e.trackTexts opened) events

/-- Whether each end is that of the innermost open element; `opened` are the elements in front of the events. -/
def endsInnermost (opened : List ElementName) : List Event → Bool
  | [] => true
  | endElement _ uri name :: events => opened.head? = some (uri, name) && endsInnermost opened.tail events
  | e :: events => endsInnermost (track opened e) events

private theorem map_element_trackTexts (opened : List OpenText) (e : Event) :
    (e.trackTexts opened).map (·.element) = track (opened.map (·.element)) e := by
  cases e with
  | characters text => cases opened <;> rfl
  | endElement => exact List.map_tail
  | startDocument | endDocument | reset | startElement | sourceIsCss => rfl

private theorem endsInnermost_cons {opened : List ElementName} {e : Event} {events : List Event} :
    endsInnermost opened (e :: events) ↔ endsInnermost opened [e] ∧ endsInnermost (track opened e) events := by
  cases e with
  | endElement locator uri name => simp [endsInnermost, track]
  | startDocument | endDocument | reset | startElement | characters | sourceIsCss => simp [endsInnermost]

private theorem requests_append (opened : List OpenText) (es fs : List Event) :
    requests opened (es ++ fs) = requests opened es ++ requests (es.foldl trackTexts opened) fs := by
  induction es generalizing opened with
  | nil => rfl
  | cons e es ih => rw [List.cons_append, requests, ih, requests, List.append_assoc, List.foldl_cons]

end Event

namespace Forest

open Event (trackTexts)

/-- Over a forest the text that no element of it contains comes to the innermost open element, and to no other one. -/
private theorem foldl_trackTexts_events (content : Forest) (o : OpenText) (opened : List OpenText) :
    content.events.foldl trackTexts (o :: opened) = { o with text := o.text ++ content.ownText } :: opened := by
  induction content generalizing o opened with
  | nil => simp [events, ownText]
  | characters text rest ih =>
    rw [events, List.foldl_cons, trackTexts, List.modifyHead_cons, ih, ownText, String.append_assoc]
  | reset rest ih | sourceIsCss value rest ih => exact ih o opened
  | element locator locator' uri name attributes inside rest ihInside ihRest =>
    rw [events, List.cons_append, List.foldl_cons, List.foldl_append, trackTexts, ihInside, List.foldl_cons, trackTexts,
      List.tail_cons, ihRest, ownText]

end Forest

/-- At the end of a `style` element its own text is to be read. -/
private theorem Event.requests_style (opened : List OpenText) {t : StartTag} (ht : t.name = "style")
    (before : List Event)
    (content : Forest) (locator : Locator) (after : List Event) :
    requests opened (before ++ t.event :: content.events ++ .endElement locator xhtml "style" :: after) =
      requests opened (before ++ t.event :: content.events) ++
        .stylesheet (withoutLineFeed content.ownText) :: requests (before.foldl trackTexts opened) after := by
  have htexts : (before ++ t.event :: content.events).foldl trackTexts opened =
      ⟨(xhtml, "style"), content.ownText⟩ :: before.foldl trackTexts opened := by
    rw [List.foldl_append, List.foldl_cons, StartTag.event, trackTexts, content.foldl_trackTexts_events, ht,
      String.empty_append]
  rw [requests_append, htexts]
  rfl

/-! ### What the frames have of it -/

/-- The text of an open element, if it is a `style` element. -/
def OpenText.styleText? (o : OpenText) : Option String :=
  if o.element = (xhtml, "style") then some o.text else none

private theorem OpenText.styleText?_add (o : OpenText) (text : String) :
    ({ o with text := o.text ++ text } : OpenText).styleText? = o.styleText?.map (· ++ text) := by
  unfold styleText?
  grind

namespace Rules

namespace Frame

/-- The text that a frame has, if it is that of a `style` element. -/
def styleText? (f : Frame) : Option String :=
  if f.isNamed "style" && f.collecting then some f.text else none

private theorem styleText?_collect (f : Frame) (text : String) :
    (f.collect text).styleText? = f.styleText?.map (· ++ text) := by
  unfold collect styleText?
  grind [isNamed]

private theorem styleText?_noteChild (t : StartTag) (f : Frame) : (State.noteChild t f).styleText? = f.styleText? := by
  show (noteOption t f).styleText? = f.styleText?
  unfold noteOption styleText?
  grind [isNamed]

private theorem styleText?_noteOptionEnd (f parent : Frame) :
    (noteOptionEnd f parent).styleText? = parent.styleText? := by
  unfold noteOptionEnd styleText?
  grind [isNamed]

end Frame

namespace State

private theorem styleText?_frameOf (s : State) (t : StartTag) :
    (s.frameOf t).styleText? = if t.name = "style" then some "" else none := by
  by_cases hn : t.name = "style"
  · simp [Frame.styleText?, Frame.isNamed, frameOf, hn]
  · simp [Frame.styleText?, Frame.isNamed, frameOf, hn]

variable {s : State} {opened : List OpenText}

/-- The frames have the texts of `style` elements, whatever the events are. -/
theorem styleTexts_next (hs : s.frames.map Frame.styleText? = opened.map OpenText.styleText?) (e : Event) :
    (s.next e).frames.map Frame.styleText? = (e.trackTexts opened).map OpenText.styleText? := by
  cases e with
  | startDocument | endDocument => rfl
  | reset | sourceIsCss => exact hs
  | characters text =>
    have hcollect : (s.next (.characters text)).frames.map Frame.styleText? =
        (s.frames.map Frame.styleText?).modifyHead (·.map (· ++ text)) :=
      map_modifyHead _ (fun f => f.styleText?_collect text) s.frames
    rw [hcollect, hs, Event.trackTexts]
    cases opened with
    | nil => rfl
    | cons o outer => rw [List.map_cons, List.modifyHead_cons, List.modifyHead_cons, List.map_cons, o.styleText?_add]
  | startElement locator uri name attributes =>
    by_cases hu : uri = xhtml
    · subst hu
      show (s.framesAfter ⟨locator, name, attributes⟩).map Frame.styleText? = _
      rw [s.map_framesAfter (fun _ => rfl) id (Frame.styleText?_noteChild _), styleText?_frameOf, hs]
      simp [Event.trackTexts, OpenText.styleText?]
    · rw [next_startOther s locator name attributes hu]
      show none :: s.frames.map Frame.styleText? = _
      simp [Event.trackTexts, OpenText.styleText?, hu, hs]
  | endElement locator uri name =>
    rw [Event.trackTexts, List.map_tail, ← hs]
    rcases hf : s.frames with _ | ⟨f, outer⟩
    · rw [next_end_nil hf, hf]
      rfl
    · rw [next_end_cons hf]
      exact map_framesAfterEnd Frame.styleText?_noteOptionEnd f uri name outer

/-! ### What is asked -/

private theorem filterMap_request?_selectNotices (f : Frame) (locator : Locator) :
    (selectNotices f locator).filterMap Notice.request? = [] := by
  refine List.filterMap_eq_nil_iff.2 fun n hn => ?_
  obtain ⟨v, place, rfl, -⟩ := mem_selectNotices hn
  rfl

private theorem filterMap_request?_extentNotices (s : State) (f : Frame) (locator : Locator) :
    (extentNotices s f locator).filterMap Notice.request? = [] := by
  refine List.filterMap_eq_nil_iff.2 fun n hn => ?_
  obtain ⟨v, place, rfl, -⟩ := mem_extentNotices hn
  rfl

private theorem filterMap_request?_styleNotices (s : State) (f : Frame) :
    (s.styleNotices f).filterMap Notice.request? = [.stylesheet (withoutLineFeed f.text)] := by
  unfold styleNotices
  dsimp only
  split
  · rename_i css hcss
    rw [withoutLineFeed, hcss, List.head?_cons, if_pos rfl]
    rfl
  · rename_i hcss
    have hhead : f.text.toList.head? ≠ some '\n' := fun hhead => by
      obtain ⟨css, hcss'⟩ := List.head?_eq_some_iff.1 hhead
      exact hcss css hcss'
    rw [withoutLineFeed, if_neg hhead]
    rfl

private theorem filterMap_request?_elementNotices (s : State) (f : Frame) (locator : Locator) (name : String) :
    (s.elementNotices f locator name).filterMap Notice.request? =
      if name = "style" then [.stylesheet (withoutLineFeed f.text)] else [] := by
  unfold elementNotices
  split
  · rename_i hselect
    rw [filterMap_request?_selectNotices, if_neg (by simp [hselect])]
  split
  · exact filterMap_request?_styleNotices s f
  split
  · exact filterMap_request?_extentNotices s f locator
  · rfl

private theorem filterMap_request?_documentNotices (s : State) : s.documentNotices.filterMap Notice.request? = [] := by
  refine List.filterMap_eq_nil_iff.2 fun n hn => ?_
  unfold documentNotices at hn
  grind [Notice.request?]

/-- An event asks for what is to be asked, if it does not end another element than the innermost open one. -/
private theorem filterMap_request?_notices (hs : s.frames.map Frame.styleText? = opened.map OpenText.styleText?)
    {e : Event}
    (he : Event.endsInnermost (opened.map (·.element)) [e]) :
    (s.notices e).filterMap Notice.request? = e.requestsAt opened := by
  cases e with
  | startDocument | reset | sourceIsCss | characters => rfl
  | endDocument => exact s.filterMap_request?_documentNotices
  | startElement locator uri name attributes =>
    by_cases hu : uri = xhtml
    · subst hu
      rw [notices_start s ⟨locator, name, attributes⟩, filterMap_request?_startNotices, Event.requestsAt, if_pos rfl,
        StartTag.values, List.map_map]
      rfl
    · simp [notices, Event.requestsAt, hu]
  | endElement locator uri name =>
    rcases opened with _ | ⟨⟨element, text⟩, opened⟩
    · simp [Event.endsInnermost] at he
    obtain rfl : element = (uri, name) := by simpa [Event.endsInnermost] using he
    obtain ⟨f, outer, hframes, hf, -⟩ := List.map_eq_cons_iff.1 hs
    have hdescendant : ((s.pendingDescendants.lookup outer.length).toList.map
        (Notice.violation .activeDescendantElsewhere ·)).filterMap Notice.request? = [] := by
      simp [List.filterMap_map, Notice.request?, Function.comp_def]
    rw [notices_endElement hframes, List.filterMap_append, hdescendant, List.append_nil, Event.requestsAt]
    by_cases hstyle : (uri, name) = (xhtml, "style")
    · obtain ⟨rfl, rfl⟩ := Prod.mk.inj hstyle
      have htext : f.text = text := by
        rw [OpenText.styleText?, if_pos rfl] at hf
        exact Option.some.inj (Option.ite_none_right_eq_some.1 hf).2
      rw [if_pos rfl, filterMap_request?_elementNotices, if_pos rfl, htext]
      rfl
    · have hnone : (if uri = xhtml then s.elementNotices f locator name else []).filterMap Notice.request? = [] := by
        split
        · rename_i hu
          rw [filterMap_request?_elementNotices, if_neg fun hn => hstyle (by rw [hu, hn])]
        · rfl
      simp [hnone, hstyle]

/-- A run asks for what is to be asked, one after the other. -/
theorem filterMap_request?_runNotices (hs : s.frames.map Frame.styleText? = opened.map OpenText.styleText?)
    {events : List Event} (h : Event.endsInnermost (opened.map (·.element)) events) :
    (s.runNotices events).filterMap Notice.request? = Event.requests opened events := by
  induction events generalizing s opened with
  | nil => rfl
  | cons e events ih =>
    obtain ⟨he, hrest⟩ := Event.endsInnermost_cons.1 h
    rw [← Event.map_element_trackTexts] at hrest
    rw [runNotices_cons, List.filterMap_append, filterMap_request?_notices hs he, Event.requests,
      ih (styleTexts_next hs e) hrest]

end State

/-! ### What becomes of the answers -/

namespace Notice

/-- Delivers some notices to a sink, if these are the answers to what they ask for. -/
def settleAll {σ : Type} [Sink σ] (sink : σ) : List Notice → List (List CssProblem) → σ
  | [], _ => sink
  | n :: ns, answers =>
    match n.request? with
    | none => settleAll (n.settle sink []) ns answers
    | some _ => settleAll (n.settle sink (answers.headD [])) ns answers.tail

theorem foldlM_deliver_eq {σ : Type} [Sink σ] {m : Type → Type} [Monad m] [LawfulMonad m] (css : CssParser m)
    (sink : σ) (ns : List Notice) :
    ns.foldlM (deliver css) sink = settleAll sink ns <$> (ns.filterMap request?).mapM css.answer := by
  induction ns generalizing sink with
  | nil => simp [settleAll]
  | cons n ns ih =>
    rw [List.foldlM_cons, deliver_eq_settle, ask_eq, bind_map_left]
    cases hn : n.request? with
    | none =>
      rw [List.filterMap_cons_none hn, Option.elim_none, pure_bind, ih]
      simp only [settleAll, hn]
    | some request =>
      rw [List.filterMap_cons_some hn, Option.elim_some, List.mapM_cons, map_bind]
      refine bind_congr fun problems => ?_
      rw [ih, bind_pure_comp, Functor.map_map]
      refine congrArg (· <$> _) (funext fun answers => ?_)
      rw [settleAll, hn]
      rfl

private theorem counted?_eq {n : Notice} {request : CssRequest} (h : n.request? = some request)
    (problems : List CssProblem) :
    n.counted? problems = if problems = [] then none else some request.property := by
  cases n with
  | violation => cases h
  | styleAttribute | stylesheet =>
    obtain rfl := Option.some.inj h
    rfl

private theorem counted?_of_request?_eq_none {n : Notice} (h : n.request? = none) (problems : List CssProblem) :
    n.counted? problems = none := by
  cases n with
  | violation => rfl
  | styleAttribute | stylesheet => cases h

private theorem mem_useCounters_settle (c : Collector) (problems : List CssProblem) (n : Notice) (property : String) :
    property ∈ (n.settle c problems).useCounters ↔
      property ∈ c.useCounters ∨ n.counted? problems = some property := by
  rw [Collector.settle_eq]
  show property ∈ (c.countAll _).useCounters ↔ _
  rw [Collector.countAll_eq]
  by_cases hp : property ∈ c.useCounters
  · simp [hp]
  · simp [hp, List.removeAll, eq_comm]

/-- A use is counted if an answer to a request of its kind is not empty, whatever messages there are. -/
theorem mem_useCounters_settleAll (c : Collector) (ns : List Notice) {answers : List (List CssProblem)}
    (h : answers.length = (ns.filterMap request?).length) (property : String) :
    property ∈ (settleAll c ns answers).useCounters ↔
      property ∈ c.useCounters ∨ ∃ p ∈ (ns.filterMap request?).zip answers, p.1.property = property ∧ p.2 ≠ [] := by
  induction ns generalizing c answers with
  | nil => simp [settleAll]
  | cons n ns ih =>
    cases hn : n.request? with
    | none =>
      rw [List.filterMap_cons_none hn] at h ⊢
      simp only [settleAll, hn]
      rw [ih _ h, mem_useCounters_settle, counted?_of_request?_eq_none hn]
      simp
    | some request =>
      rw [List.filterMap_cons_some hn] at h ⊢
      obtain ⟨problems, answers, rfl⟩ := List.exists_cons_of_length_eq_add_one h
      simp only [settleAll, hn, List.headD_cons, List.tail_cons]
      rw [ih _ (Nat.succ.inj h), mem_useCounters_settle, counted?_eq hn]
      simp [or_assoc, and_comm, eq_comm]

end Notice

/-! ### Texts in several pieces -/

namespace State

private theorem next_characters_append (s : State) (text text' : String) :
    (s.next (.characters text)).next (.characters text') = s.next (.characters (text ++ text')) := by
  have hcollect (f : Frame) : (f.collect text).collect text' = f.collect (text ++ text') := by
    unfold Frame.collect
    grind [String.append_assoc]
  simp only [next, List.modifyHead_modifyHead, Function.comp_def, hcollect]

private theorem next_characters_empty (s : State) : s.next (.characters "") = s := by
  have hcollect (f : Frame) : f.collect "" = f := by
    unfold Frame.collect
    simp
  have hframes : s.frames.modifyHead (fun f => f) = s.frames := congrFun List.modifyHead_id s.frames
  simp only [next, hcollect, hframes]

theorem run_characters (s : State) (texts : List String) :
    s.run (texts.map .characters) = s.next (.characters (String.join texts)) := by
  induction texts generalizing s with
  | nil => rw [String.join_nil, next_characters_empty]; rfl
  | cons text texts ih => rw [List.map_cons, run_cons, ih, next_characters_append, String.join_cons]

theorem runNotices_characters (s : State) (texts : List String) : s.runNotices (texts.map .characters) = [] := by
  induction texts generalizing s with
  | nil => rfl
  | cons text texts ih => exact ih _

end State

end Rules

namespace Checker

/-- It does not matter in how many pieces a text comes. -/
private theorem feedAll_pieces {σ : Type} [Sink σ] {m : Type → Type} [Monad m] [LawfulMonad m] (css : CssParser m)
    (c : Checker σ) (before after : List Event) (texts : List String) :
    c.feedAll css (before ++ texts.map .characters ++ after) =
      c.feedAll css (before ++ .characters (String.join texts) :: after) := by
  have hnotices : ((c.state.run before).notices (.characters (String.join texts))) = [] := rfl
  simp only [feedAll_eq, State.run_append, State.runNotices_append, State.run_cons, State.runNotices_cons,
    State.run_characters, State.runNotices_characters, hnotices, List.append_nil, List.nil_append]

/-- Take a run of events in which each end is that of the innermost open element, and none is open in front of it. The
CSS parser is asked for `requests` in this order and for nothing else, whatever it does and answers. At the end of a
`style` element the request is for the text inside it that no element in it contains. A use is counted if one of the
answers to the requests of its kind is not empty. Nothing depends on how text is cut into pieces. -/
theorem feedAll_requests (c : Checker Collector) (hc : c.depth = 0) {events : List Event}
    (h : Event.endsInnermost [] events) :
    let requests := Event.requests [] events
    (∃ outcome : List (List CssProblem) → Checker Collector,
      (∀ (m : Type → Type) [Monad m] [LawfulMonad m] (css : CssParser m),
        c.feedAll css events = outcome <$> requests.mapM css.answer) ∧
      ∀ (answers : List (List CssProblem)) (property : String), answers.length = requests.length →
        (property ∈ (outcome answers).sink.useCounters ↔
          property ∈ c.sink.useCounters ∨ ∃ p ∈ requests.zip answers, p.1.property = property ∧ p.2 ≠ [])) ∧
    (∀ (before : List Event) (t : StartTag) (content : Forest) (locator : Locator) (after : List Event),
      events = before ++ t.event :: content.events ++ .endElement locator xhtml "style" :: after → t.name = "style" →
      requests = Event.requests [] (before ++ t.event :: content.events) ++
        .stylesheet (withoutLineFeed content.ownText) :: Event.requests (before.foldl Event.trackTexts []) after) ∧
    ∀ (m : Type → Type) [Monad m] [LawfulMonad m] (css : CssParser m) (before : List Event) (texts : List String)
      (after : List Event), events = before ++ .characters (String.join texts) :: after →
      c.feedAll css (before ++ texts.map .characters ++ after) = c.feedAll css events := by
  intro requests
  have hframes : c.state.frames = [] := List.eq_nil_of_length_eq_zero hc
  have hrequests : (c.state.runNotices events).filterMap Notice.request? = requests :=
    State.filterMap_request?_runNotices (by rw [hframes]; rfl) h
  refine ⟨⟨fun answers => ⟨c.state.run events, Notice.settleAll c.sink (c.state.runNotices events) answers⟩, ?_, ?_⟩,
    ?_, ?_⟩
  · intro m _ _ css
    rw [feedAll_eq, Notice.foldlM_deliver_eq, hrequests, Functor.map_map]
  · intro answers property hanswers
    rw [← hrequests] at hanswers ⊢
    exact Notice.mem_useCounters_settleAll c.sink _ hanswers property
  · rintro before t content locator after rfl hstyle
    exact Event.requests_style [] hstyle before content locator after
  · rintro m _ _ css before texts after rfl
    exact feedAll_pieces css c before after texts

/-- What stands behind the first text of a `style` element: another one, and a comment in an element that is not of the
vocabulary. -/
def behindFirstText : Forest :=
  .element ⟨2, 30, none, none⟩ ⟨2, 50, none, none⟩ xhtml "style" [] (.characters "inner" .nil) <|
  .element ⟨3, 30, none, none⟩ ⟨3, 50, none, none⟩ "urn:other" "style" (.ofPairs [("style", "z")])
    (.characters "comment" .nil) <|
  .characters "\nc:d" .nil

/-- A parser that finds something in the outer sheet only, and has nothing to say about it. -/
theorem feedAll_requests_nestedSheets :
    let c : Checker Collector := { sink := {} }
    let css : CssParser Id := ⟨fun text => if text = "inner" then [] else [⟨1, 1, 1, 2, .other ""⟩], fun _ _ => []⟩
    let t : StartTag := ⟨⟨1, 30, none, none⟩, "style", [⟨"", "style", "x", false⟩, ⟨"urn:other", "style", "y", false⟩]⟩
    let content : Forest := .characters "\na:b" behindFirstText
    let after : List Event := [.endElement ⟨4, 50, none, none⟩ xhtml "style", .endDocument]
    let events : List Event := [.startDocument] ++ t.event :: content.events ++ after
    c.depth = 0 ∧ Event.endsInnermost [] events ∧
    Event.requests [] events = [.styleAttribute "x" 1, .stylesheet "inner", .stylesheet "a:b\nc:d"] ∧
    Event.requests [] events =
      Event.requests [] ([.startDocument] ++ t.event :: content.events) ++ [.stylesheet "a:b\nc:d"] ∧
    (∀ property, property ∈ (c.feedAll css events).run.sink.useCounters ↔ property = Vocabulary.styleElementErrors) ∧
    c.feedAll css ([.startDocument, t.event] ++ ["\na", "", ":b"].map .characters ++
      (behindFirstText.events ++ after)) = c.feedAll css events := by
  intro c css t content after events
  have hends : Event.endsInnermost [] events := by decide +kernel
  have hrequests : Event.requests [] events =
      [.styleAttribute "x" 1, .stylesheet "inner", .stylesheet "a:b\nc:d"] := by decide +kernel
  have htext : withoutLineFeed content.ownText = "a:b\nc:d" := by decide +kernel
  obtain ⟨⟨outcome, hcalls, hcounters⟩, hstyle, hpieces⟩ := feedAll_requests c rfl hends
  refine ⟨rfl, hends, hrequests, ?_, fun property => ?_, hpieces Id css _ _ _ rfl⟩
  · rw [← htext]
    exact hstyle _ t content _ [.endDocument] rfl rfl
  · rw [hrequests] at hcalls hcounters
    rw [hcalls Id css]
    refine (hcounters [[], [], [⟨1, 1, 1, 2, .other ""⟩]] property rfl).trans ?_
    simp [c, CssRequest.property, eq_comm]

end Checker

end MapMarkup
