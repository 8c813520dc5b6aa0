import MapMarkup.Proofs.Failures
import MapMarkup.Proofs.Files

/-!
# The root element

What has been read of a document is nothing but its prolog, or its root element as far as that has come
(`Rooted`): every token keeps this up (`Rooted.takeToken`), because no token outside the root element has events and no
element can start behind it. At the end of the text a reader asks whether elements are open, and nothing else. So a
document that is read without an error consists of one element, and has closed its DTD, if and only if some element
starts in it; a text that ends in its prolog, even inside its DTD, passes as a document without any content
(`Reader.complete_iff_startsElement`).
-/

namespace MapMarkup

open Event (nestAll?)

/-- The events are those of one element: its start, what is properly nested inside it, and its end. -/
def Event.IsElement (events : List Event) : Prop :=
  ∃ locator uri name attributes inside locator',
    events = startElement locator uri name attributes :: (inside ++ [endElement locator' uri name]) ∧
      nestAll? [] inside = some []

private theorem Event.IsElement.ne_nil {events : List Event} (h : IsElement events) : events ≠ [] := by
  obtain ⟨locator, uri, name, attributes, inside, locator', rfl, -⟩ := h
  exact List.cons_ne_nil _ _

namespace Xml

/-! ### Prologs -/

/-- Whether a token starts an element. -/
def Token.IsStart (t : Token) : Prop :=
  ∃ name span, t = .elementStart name span

/-- The prolog lasts until an element starts, and never comes back. -/
theorem Phase.Goes.isProlog_iff {p q : Phase} {t : Token} (h : p.Goes t q) :
    q.IsProlog ↔ p.IsProlog ∧ ¬ t.IsStart := by
  have hphaseAt : ∀ depth, ¬ (Lexer.phaseAt depth).IsProlog := by
    intro depth
    unfold Lexer.phaseAt
    split
    · exact id
    · exact id
  cases h with
  | prolog hp hq => simp [hp, hq, Token.IsStart]
  | entity => simp [IsProlog, Token.IsStart]
  | root | child => simp [IsProlog, Token.IsStart]
  | attr | openEnd | aside | text | cdata | epilog => simp [IsProlog]
  | emptyEnd depth => exact iff_of_false (hphaseAt depth) (·.1)
  | close depth => exact iff_of_false (hphaseAt (depth - 1)) (·.1)

/-! ### One token -/

/-- In the given phase the events are those of nothing, or of the root element as far as it has come; then the phase
counts the open elements, and the root element is one more than those inside it. -/
inductive Rooted : Phase → List Event → Prop
  | before {p : Phase} (hp : p.IsProlog ∨ p = .inTag 0) : Rooted p []
  | inside {p : Phase} (locator : Locator) (uri name : String) (attributes : Attributes) {content : List Event}
    {inner : List ElementName} (hp : p = .content (inner.length + 1) ∨ p = .inTag (inner.length + 1))
    (hcontent : nestAll? [] content = some inner) :
    Rooted p (.startElement locator uri name attributes :: content)
  | after {events : List Event} (h : Event.IsElement events) : Rooted .afterRoot events

private theorem Rooted.of_isProlog {p : Phase} {events : List Event} (h : Rooted p events) (hp : p.IsProlog) :
    events = [] := by
  cases h with
  | before => rfl
  | inside _ _ _ _ hp' => rcases hp' with rfl | rfl <;> exact hp.elim
  | after => exact hp.elim

theorem Rooted.of_content {depth : Nat} {events : List Event} (h : Rooted (.content depth) events) :
    ∃ locator uri name attributes content inner, events = .startElement locator uri name attributes :: content ∧
      nestAll? [] content = some inner ∧ depth = inner.length + 1 := by
  cases h with
  | before hp => rcases hp with hp | hp <;> simp [Phase.IsProlog] at hp
  | inside locator uri name attributes hp hcontent => exact ⟨_, _, _, _, _, _, rfl, hcontent, by simpa using hp⟩

private theorem Rooted.of_inTag {depth : Nat} {events : List Event} (h : Rooted (.inTag depth) events) :
    depth = 0 ∧ events = [] ∨
      ∃ locator uri name attributes content inner, events = .startElement locator uri name attributes :: content ∧
        nestAll? [] content = some inner ∧ depth = inner.length + 1 := by
  cases h with
  | before hp => exact .inl ⟨by simpa [Phase.IsProlog] using hp, rfl⟩
  | inside locator uri name attributes hp hcontent => exact .inr ⟨_, _, _, _, _, _, rfl, hcontent, by simpa using hp⟩

/-- With no element open, there is nothing yet or all of the root element. -/
private theorem Rooted.of_closed {p : Phase} {events : List Event} {names : List ElementName} (h : Rooted p events)
    (hr : Agree p [] names) : p.IsProlog ∧ events = [] ∨ p = .afterRoot ∧ Event.IsElement events := by
  cases hr with
  | outside hp =>
    rcases hp with hp | rfl
    · exact .inl ⟨hp, h.of_isProlog hp⟩
    · cases h with
      | before hp => rcases hp with hp | hp <;> cases hp
      | inside _ _ _ _ hp => rcases hp with hp | hp <;> cases hp
      | after helement => exact .inr ⟨rfl, helement⟩
  | content _ hne ho =>
    cases ho
    exact absurd rfl hne

/-- A token that moves the phase on continues what has been read, if the reader agrees with the lexer on the open
elements. -/
theorem Rooted.takeToken {r : Reader} {p q : Phase} {t : Token} {body events : List Event} {names : List ElementName}
    {opened : OpenElements} {entities : Entities} (hbody : Rooted p body) (hnames : nestAll? [] body = some names)
    (hr : Agree p r.opened names) (hgo : p.Goes t q) (h : r.takeToken t = .ok (opened, entities, events)) :
    Rooted q (body ++ events) := by
  have htakes := Reader.takes_of_takeToken h
  cases hgo with
  | prolog hp hq =>
    obtain rfl := hbody.of_isProlog hp
    cases htakes
    exact .before (.inl hq)
  | entity =>
    obtain rfl := hbody.of_isProlog trivial
    cases htakes
    exact .before (.inl trivial)
  | root hp =>
    obtain rfl := hbody.of_isProlog hp
    cases htakes
    exact .before (.inr rfl)
  | attr depth =>
    have hevents : events = [] := by cases htakes <;> rfl
    rwa [hevents, List.append_nil]
  | openEnd depth =>
    obtain ⟨e, outer, ho, -, -⟩ := hr.of_inTag
    cases htakes with
    | strayOpenEnd hnone => simp [ho] at hnone
    | @openEnd _ _ uri' name' event _ hs =>
      obtain ⟨cs, attributes', -, -, -, -, rfl⟩ := Reader.startElement_eq_ok hs
      rcases hbody.of_inTag with ⟨rfl, rfl⟩ | ⟨locator, uri, name, attributes, content, inner, rfl, hcontent, rfl⟩
      · exact .inside _ _ _ _ (.inl rfl) (Event.nestAll?_nil [])
      · have hcontent' : nestAll? [] (content ++ [.startElement r.locator uri' name' attributes']) =
            some ((uri', name') :: inner) := Event.nestAll?_concat hcontent _
        exact .inside _ _ _ _ (.inl rfl) hcontent'
  | emptyEnd depth =>
    obtain ⟨e, outer, ho, -, -⟩ := hr.of_inTag
    cases htakes with
    | strayEmptyEnd hnone => simp [ho] at hnone
    | @emptyEnd _ _ uri' name' event _ hs =>
      obtain ⟨cs, attributes', -, -, -, -, rfl⟩ := Reader.startElement_eq_ok hs
      rcases hbody.of_inTag with ⟨rfl, rfl⟩ | ⟨locator, uri, name, attributes, content, inner, rfl, hcontent, rfl⟩
      · exact .after ⟨_, _, _, _, [], _, rfl, rfl⟩
      · have hcontent' : nestAll? [] (content ++ [.startElement r.locator uri' name' attributes',
            .endElement r.locator uri' name']) = some inner := by
          rw [Event.nestAll?_append, hcontent, Option.bind_some]
          exact (Event.Content.emptyElement ..).nested
        exact .inside _ _ _ _ (.inl rfl) hcontent'
  | aside depth | child depth =>
    obtain ⟨locator, uri, name, attributes, content, inner, rfl, hcontent, rfl⟩ := hbody.of_content
    cases htakes
    rw [List.append_nil]
    exact .inside _ _ _ _ (by simp) hcontent
  | text depth | cdata depth =>
    obtain ⟨locator, uri, name, attributes, content, inner, rfl, hcontent, rfl⟩ := hbody.of_content
    have hcontent' : nestAll? [] (content ++ events) = some inner := by
      cases htakes
      exact Event.nestAll?_concat hcontent _
    exact .inside _ _ _ _ (.inl rfl) hcontent'
  | close depth name' span =>
    obtain ⟨locator, uri, name, attributes, content, inner, rfl, hcontent, rfl⟩ := hbody.of_content
    obtain ⟨names', hend, -⟩ := hr.takeToken (.close _ _ _) h
    -- The innermost open element is the root element if nothing inside it is open.
    obtain rfl : inner ++ [(uri, name)] = names := by
      have hall := Event.nestAll?_append_outer hcontent [(uri, name)]
      rw [List.nil_append] at hall
      exact Option.some.inj (hall.symm.trans hnames)
    cases htakes with
    | @closeTag _ _ _ _ uri' =>
      obtain ⟨between, hnest, -⟩ := Event.nestAll?_eq_of_cons hend.nested
      have hcons := Event.eq_cons_of_nest?_endElement hnest
      rcases inner with _ | ⟨e, inner⟩
      · obtain ⟨hroot, -⟩ := List.cons.inj hcons
        obtain ⟨rfl, rfl⟩ := Prod.mk.inj hroot
        exact .after ⟨_, _, _, _, content, _, rfl, hcontent⟩
      · obtain ⟨rfl, -⟩ := List.cons.inj hcons
        have hcontent' : nestAll? [] (content ++ [.endElement r.locator (.ofList uri') (.ofList name'.base.chars)]) =
            some inner := (Event.nestAll?_concat hcontent _).trans (if_pos rfl)
        exact .inside _ _ _ _ (.inl rfl) hcontent'
  | epilog =>
    cases htakes
    rwa [List.append_nil]

/-! ### Whole documents -/

namespace Reader

/-- Whether a call on the document reads the start of an element. -/
def StartsElement (r : Reader) : Prop :=
  ∃ k t, r.tokenOfCall k = some t ∧ t.IsStart

/-- The document consists of one element, and the reading does not stay inside its DTD. -/
structure Complete (r : Reader) : Prop where
  root : ∃ root, Event.IsElement root ∧ r.events = .startDocument :: (root ++ [.endDocument])
  doctype : ∀ k, (r.afterCalls k).lexer.phase = .inDoctype → ∃ n > k, (r.afterCalls n).lexer.phase ≠ .inDoctype

/-- The calls that read tokens leave the prolog when an element starts. -/
private theorem isProlog_afterCalls_iff (source : List Char) (systemId : Option String) {n : Nat}
    (h : ∀ k < n, ((start source systemId).call k).2 = .token) :
    ((start source systemId).afterCalls n).lexer.phase.IsProlog ↔
      ∀ k < n, ∀ t, (start source systemId).tokenOfCall k = some t → ¬ t.IsStart := by
  induction n with
  | zero => simp [afterCalls, start, Lexer.start, Phase.IsProlog]
  | succ n ih =>
    obtain ⟨t, lexer, opened, entities, events, htoken, hl, -, -, hnext⟩ :=
      exists_of_call_token (h n (Nat.lt_succ_self n))
    have hphase : ((start source systemId).afterCalls (n + 1)).lexer.phase = lexer.phase := by rw [hnext]
    rw [hphase, (Lexer.goes_of_next? hl).isProlog_iff, ih fun k hk => h k (Nat.lt_succ_of_lt hk)]
    constructor
    · rintro ⟨hbefore, hlast⟩ k hk t' ht'
      rcases Nat.lt_succ_iff_lt_or_eq.1 hk with hlt | rfl
      · exact hbefore k hlt t' ht'
      · obtain rfl := Option.some.inj (htoken.symm.trans ht')
        exact hlast
    · intro hall
      exact ⟨fun k hk => hall k (Nat.lt_succ_of_lt hk), hall n (Nat.lt_succ_self n) t htoken⟩

/-- What the calls that read tokens have said. -/
theorem exists_rooted (source : List Char) (systemId : Option String) {n : Nat}
    (h : ∀ k < n, ((start source systemId).call k).2 = .token) :
    let r := start source systemId
    ∃ body names, r.eventsOfCalls n ++ (r.afterCalls n).opening = .startDocument :: body ∧
      nestAll? [] body = some names ∧ Agree (r.afterCalls n).lexer.phase (r.afterCalls n).opened names ∧
      Rooted (r.afterCalls n).lexer.phase body := by
  intro r
  induction n with
  | zero => exact ⟨[], [], rfl, rfl, .outside (.inl trivial), .before (.inl trivial)⟩
  | succ n ih =>
    obtain ⟨body, names, hsaid, hnames, hagree, hrooted⟩ := ih fun k hk => h k (Nat.lt_succ_of_lt hk)
    obtain ⟨t, lexer, opened, entities, events, -, hl, htake, hcall, hnext⟩ :=
      exists_of_call_token (h n (Nat.lt_succ_self n))
    have hgo := Lexer.goes_of_next? hl
    have hagree' : Agree (r.afterCalls n).lexer.phase { r.afterCalls n with lexer }.opened names := hagree
    obtain ⟨names', hevents, hagree''⟩ := hagree'.takeToken hgo htake
    have hopening : (r.afterCalls (n + 1)).opening = [] := by
      rw [opening_afterCalls source systemId h, if_neg (Nat.succ_ne_zero n)]
    refine ⟨body ++ events, names', ?_, ?_, ?_, ?_⟩
    · rw [eventsOfCalls, hcall, hopening, List.append_nil, ← List.append_assoc, hsaid, List.cons_append]
    · rw [Event.nestAll?_append, hnames, Option.bind_some, hevents.nested]
    · rw [hnext]
      exact hagree''
    · rw [hnext]
      exact hrooted.takeToken hnames hagree' hgo htake

/-- Where the reading comes to the end of the document, it has read no more than its prolog or else one element. -/
theorem events_of_finished {source : List Char} {systemId : Option String} {i : Nat}
    (h : (start source systemId).StopsAt i .finished) :
    let r := start source systemId
    let phase := (r.afterCalls i).lexer.phase
    (∃ body, r.events = .startDocument :: (body ++ [.endDocument]) ∧
      (phase.IsProlog ∧ body = [] ∨ phase = .afterRoot ∧ Event.IsElement body)) ∧
    ∀ n > i, (r.afterCalls n).lexer.phase = phase := by
  intro r phase
  obtain ⟨body, names, hsaid, -, hagree, hrooted⟩ := exists_rooted source systemId h.before
  have hs := stage_ne_of_before h.before
  have hhere : (r.afterCalls i).advance.2.2 = .finished := h.here
  rcases advance_cases hs with ⟨e, he⟩ | ⟨ho, he⟩ | ⟨t, lexer, opened, entities, events, -, -, he⟩
  · rw [he] at hhere
    simp at hhere
  · constructor
    · refine ⟨body, ?_, ?_⟩
      · have hcall : (r.call i).1 = (r.afterCalls i).opening ++ [.endDocument] := congrArg (·.2.1) he
        rw [events_eq h (by simp), eventsOfCalls, hcall, ← List.append_assoc, hsaid, List.cons_append]
      · rw [ho] at hagree
        exact hrooted.of_closed hagree
    · intro n hn
      have hnext : r.afterCalls (i + 1) = { r.afterCalls i with stage := .finished } := congrArg (·.1) he
      rw [afterCalls_of_finished (by rw [hnext]) hn, hnext]
  · rw [he] at hhere
    simp at hhere

private theorem not_complete_of_events {r : Reader} (h : r.events = [.startDocument, .endDocument]) : ¬ r.Complete := by
  rintro ⟨⟨root, hroot, hevents⟩, -⟩
  rw [h] at hevents
  have hnil : [] ++ [Event.endDocument] = root ++ [.endDocument] := (List.cons.inj hevents).2
  exact hroot.ne_nil (List.append_cancel_right hnil).symm

end Reader

end Xml

open Xml (Reader)

namespace CommandLine

/-- Only a file that is not well-formed makes the exit status 2. -/
private theorem status_check_eq_two_iff {ω : Type} (render : Rendering ω) (flags : List Flag) (name : String)
    (source : List Char) :
    (check render flags [⟨name, .ok source⟩]).status = unreadable ↔
      (Reader.start source (some name)).error?.isSome := by
  have hready : (Session.start flags : Session ω).Ready flags := Session.ready_start flags
  have hchecked := hready.checkFile_text render (flags.contains .warningsAsErrors) name source
  have hstatus : (Session.start flags : Session ω).status = 0 := rfl
  simp only [check, List.foldl_cons, List.foldl_nil, hchecked, hstatus]
  generalize (Reader.start source (some name)).error?.isSome = broken
  cases broken with
  | true => simp [statusAfter, unreadable]
  | false =>
    simp only [statusAfter, unreadable, invalid, Bool.false_eq_true, ↓reduceIte, iff_false]
    split
    · simp
    · simp

/-- A document without content is checked without a report. -/
private theorem check_of_events {ω : Type} (render : Rendering ω) (flags : List Flag) {name : String}
    {source : List Char}
    (hread : (Reader.start source (some name)).error? = none)
    (hevents : (Reader.start source (some name)).events = [.startDocument, .endDocument]) :
    check render flags [⟨name, .ok source⟩] = ⟨0, []⟩ := by
  have hready : (Session.start flags : Session ω).Ready flags := Session.ready_start flags
  have hchecked := hready.checkFile_text render (flags.contains .warningsAsErrors) name source
  have hfound : Session.found flags name source = {} := by
    rw [Session.found, hevents]
    rfl
  have hshown : Session.shown render flags name source = [] := by
    rw [Session.shown, hread, hfound]
    rfl
  have hstatus : (Session.start flags : Session ω).status = 0 := rfl
  have hprinted : (Session.start flags : Session ω).printed = [] := rfl
  simp only [check, List.foldl_cons, List.foldl_nil, hchecked, hshown, hfound, hread, hstatus, hprinted]
  simp [statusAfter, Collector.hasErrors, Collector.errors, Collector.ofLevel]

end CommandLine

namespace Xml.Reader

open CommandLine (Flag Rendering check unreadable)

/-- A document that is read without an error consists of one element, and its DTD is closed, if and only if an element
starts in it. If none does, then it has no content, and passes without a report; a document that is not read to its end
without an error makes the exit status 2. -/
theorem complete_iff_startsElement {ω : Type} (render : Rendering ω) (source : List Char) (systemId : Option String) :
    let r : Reader := start source systemId
    (r.error? = none →
      (r.Complete ↔ r.StartsElement) ∧
      (¬ r.StartsElement → r.events = [.startDocument, .endDocument] ∧
        ∀ flags name, systemId = some name → check render flags [⟨name, .ok source⟩] = ⟨0, []⟩)) ∧
    ∀ flags name, systemId = some name →
      ((check render flags [⟨name, .ok source⟩]).status = unreadable ↔ r.error?.isSome) := by
  intro r
  refine ⟨fun hread => ?_, ?_⟩
  · obtain ⟨i, -, outcome, ho, hstops⟩ := exists_stopsAt source systemId
    have houtcome : outcome = .finished := by
      have herror : Outcome.error? outcome = none := (error?_eq hstops ho).symm.trans hread
      cases outcome with
      | token => exact absurd rfl ho
      | failed e => simp [Outcome.error?] at herror
      | finished => rfl
    rw [houtcome] at hstops
    obtain ⟨⟨body, hevents, hbody⟩, hlater⟩ := events_of_finished hstops
    have hprolog := isProlog_afterCalls_iff source systemId hstops.before
    -- All tokens are read before the reading stops.
    have hstarts : r.StartsElement ↔ ¬ (r.afterCalls i).lexer.phase.IsProlog := by
      rw [hprolog]
      constructor
      · rintro ⟨k, t, ht, hstart⟩ hall
        exact hall k (hstops.lt_of_token (by simp) (call_of_tokenOfCall ht)) t ht hstart
      · refine fun hnot => Classical.byContradiction fun hnone => ?_
        exact hnot fun k _ t ht hstart => hnone ⟨k, t, ht, hstart⟩
    rcases hbody with ⟨hp, rfl⟩ | ⟨hp, helement⟩
    · refine ⟨iff_of_false (not_complete_of_events hevents) (fun h => hstarts.1 h hp), fun _ => ⟨hevents, ?_⟩⟩
      rintro flags name rfl
      exact CommandLine.check_of_events render flags hread hevents
    · have hstart : r.StartsElement := hstarts.2 (by rw [hp]; exact id)
      refine ⟨iff_of_true ⟨⟨body, helement, hevents⟩, fun k hk => ?_⟩ hstart, fun h => absurd hstart h⟩
      refine ⟨max k i + 1, by omega, ?_⟩
      rw [hlater _ (by omega), hp]
      exact Phase.noConfusion
  · rintro flags name rfl
    exact CommandLine.status_check_eq_two_iff render flags name source

/-- An empty element is a complete document. -/
theorem complete_emptyElement :
    let r := start "<a/>".toList none
    r.error? = none ∧ r.StartsElement ∧ r.Complete := by
  intro r
  have hread : r.error? = none := by decide +kernel
  have hstart : r.StartsElement := ⟨0, .elementStart ⟨⟨1, []⟩, ⟨1, ['a']⟩⟩ ⟨0, 2⟩, by decide +kernel, _, _, rfl⟩
  have hcomplete := complete_iff_startsElement (fun _ _ reports => reports) "<a/>".toList none
  exact ⟨hread, hstart, ((hcomplete.1 hread).1).2 hstart⟩

/-- Nothing, a prolog without an element, and a DTD that is not closed are read without an error; the last one leaves
the reader inside the DTD for good. -/
theorem not_complete_prolog :
    (∀ source ∈ ["", "<?xml version='1.0'?><!-- -->\n", "<!DOCTYPE a [\n"].map String.toList,
      let r := start source (some "a")
      r.error? = none ∧ r.events = [.startDocument, .endDocument] ∧ ¬ r.Complete ∧
        ∀ {ω : Type} (render : Rendering ω), check render [] [⟨"a", .ok source⟩] = ⟨0, []⟩) ∧
    ((start "<!DOCTYPE a [\n".toList (some "a")).afterCalls 2).lexer.phase = .inDoctype ∧
    ((start "<!DOCTYPE a [\n".toList (some "a")).afterCalls 2).stage = .finished := by
  refine ⟨fun source hsource => ?_, by decide +kernel⟩
  have hrun : (start source (some "a")).error? = none ∧
      (start source (some "a")).events = [.startDocument, .endDocument] := by
    revert source
    decide +kernel
  exact ⟨hrun.1, hrun.2, not_complete_of_events hrun.2,
    fun render => CommandLine.check_of_events render [] hrun.1 hrun.2⟩

end Xml.Reader

end MapMarkup
