import MapMarkup.Proofs.Expansion
import MapMarkup.Proofs.Failures
import MapMarkup.Proofs.Findings
import MapMarkup.Proofs.StylePlaces
import MapMarkup.Proofs.TagEnds

/-!
# Problems of `style` elements in the document

The content of a `style` element is handed to the CSS parser at the end tag, without a line feed at its start, and the
problems that the parser finds are diagnostics at once. If the content is a plain text, the place just past the start
tag is where it stands in the document, so it is known which reports show the text that their problem is about
(`Checker.read_style`).
-/

namespace MapMarkup

namespace Xml

/-! ### Texts -/

/-- A run of characters stands where the scan started. -/
private theorem Lexeme.offset_of_charsUntil {stop : List Char → Bool} {c : Cursor} {r : Scanned c Passage}
    (h : charsUntil stop c = .ok r) : r.value.offset = c.position.offset := by
  rw [charsUntil_eq] at h
  split at h
  · simp at h
  · obtain rfl := Except.ok.inj h
    rfl

private theorem Production.offset_of_textRun {c : Cursor} {r : Scanned c Token} {content : Passage}
    (h : textRun c = .ok r)
    (ht : r.value = .text content) : content.offset = c.position.offset := by
  obtain ⟨r₁, h₁, r₂, h₂, hvalue, -⟩ := Scan.bind_eq_ok h
  split at h₂
  · simp [Scan.fail] at h₂
  · obtain rfl := Except.ok.inj h₂
    obtain rfl : r₁.value = content := Token.text.inj (hvalue.symm.trans ht)
    exact Lexeme.offset_of_charsUntil h₁

namespace Lexer

open Scan (Gives)

variable {content : Passage}

private theorem construct_ne {α : Type} {kind : Construct} {s : Lexeme α} {P : α → Prop} {token : α → Token × Phase}
    {c : Cursor} {t : Token} {l : Lexer} (hs : Gives P s) (ht : ∀ a, P a → (token a).1 ≠ t) :
    construct kind s token c ≠ .ok (some (t, l)) := by
  intro h
  obtain ⟨r, hr, hvalue, -⟩ := construct_eq_ok h
  exact ht r.value (hs c r hr) hvalue.symm

private theorem exists_textRun {depth : Nat} {c : Cursor} {l : Lexer}
    (h : Lexer.content depth c = .ok (some (.text content, l))) :
    ∃ r, Production.textRun c = .ok r ∧ r.value = .text content := by
  unfold Lexer.content at h
  split at h
  · simp at h
  · split at h
    · split at h
      · rename_i lexed haside
        subst h
        simpa using (eq_of_aside? haside).1
      · split at h
        · refine absurd h (construct_ne Production.gives_cdataSection ?_)
          rintro _ ⟨content, rfl⟩
          simp
        · split at h
          · simp at h
          · split at h
            · refine absurd h (construct_ne Production.gives_closeTag ?_)
              rintro _ ⟨name, span, rfl⟩
              simp
            · refine absurd h (construct_ne Production.gives_elementStart ?_)
              rintro _ ⟨name, span, rfl⟩
              simp
    · obtain ⟨r, hr, hvalue, -⟩ := construct_eq_ok h
      exact ⟨r, hr, hvalue.symm⟩

/-- The text of a token stands where the lexer has been. -/
private theorem offset_of_next?_text {l l' : Lexer} (h : l.next? = .ok (some (.text content, l'))) :
    content.offset = l.cursor.position.offset := by
  obtain ⟨depth, hphase⟩ := (goes_of_next? h).exists_of_text
  unfold next? at h
  rw [hphase] at h
  obtain ⟨r, hr, hvalue⟩ := exists_textRun h
  exact Production.offset_of_textRun hr hvalue

end Lexer

namespace Entities

/-- A text without references stands for itself. -/
private theorem expand_content_of_not_mem {entities : Entities} {content : Passage} (h : '&' ∉ content.chars) :
    entities.expand .content content = .ok content.chars := by
  unfold expand
  by_cases hne : content.chars = []
  · rw [hne, pieces_nil]
    rfl
  · rw [pieces_of_not_mem _ h hne]
    simp [expandPiece, bind, Except.bind, pure, Except.pure]

end Entities

namespace Reader

open Entities (expand_content_of_not_mem)

/-- Three calls read the start tag of a `style` element of the vocabulary, its content, which is a text without
references, and its end tag. -/
structure ReadsStyle (r : Reader) (k : Nat) (content : Passage) : Prop where
  started : ∃ locator attributes, .startElement locator Vocabulary.xhtml "style" attributes ∈ (r.call k).1
  startTag : r.tokenOfCall k = some .openEnd
  text : r.tokenOfCall (k + 1) = some (.text content)
  endTag : ∃ name span, r.tokenOfCall (k + 2) = some (.closeTag name span)
  literal : '&' ∉ content.chars

variable {r : Reader} {k : Nat} {content : Passage}

/-- Behind a token the document has been started. -/
private theorem opening_of_token (h : (r.call k).2 = .token) : (r.afterCalls (k + 1)).opening = [] := by
  have hs : (r.afterCalls (k + 1)).stage = .reading := stage_of_token h
  rw [opening, hs]
  rfl

/-- A call that reads a given token. -/
private theorem exists_of_tokenOfCall {t : Token} (h : r.tokenOfCall k = some t) :
    ∃ lexer opened entities events, (r.afterCalls k).lexer.next? = .ok (some (t, lexer)) ∧
      Takes { r.afterCalls k with lexer } t opened entities events ∧
      (r.call k).1 = (r.afterCalls k).opening ++ events ∧
      r.afterCalls (k + 1) = { r.afterCalls k with lexer, opened, entities, stage := .reading } := by
  obtain ⟨t', lexer, opened, entities, events, ht, hl, htake, hevents, hnext⟩ :=
    exists_of_call_token (call_of_tokenOfCall h)
  obtain rfl := Option.some.inj (h.symm.trans ht)
  exact ⟨lexer, opened, entities, events, hl, takes_of_takeToken htake, hevents, hnext⟩

/-- What the calls say about a `style` element. -/
theorem ReadsStyle.events (h : r.ReadsStyle k content) :
    ∃ locator locator' attributes,
      (r.call k).1 = (r.afterCalls k).opening ++ [.startElement locator Vocabulary.xhtml "style" attributes] ∧
      (r.call (k + 1)).1 = [.characters (.ofList content.chars)] ∧
      (r.call (k + 2)).1 = [.endElement locator' Vocabulary.xhtml "style"] := by
  obtain ⟨⟨locator, attributes, hstart⟩, hopen, htext, ⟨name, span, hclose⟩, hliteral⟩ := h
  obtain ⟨lexer, opened, entities, events, -, htakes, hevents, hnext⟩ := exists_of_tokenOfCall hopen
  obtain ⟨lexer₁, opened₁, entities₁, events₁, -, htakes₁, hevents₁, hnext₁⟩ := exists_of_tokenOfCall htext
  obtain ⟨lexer₂, opened₂, entities₂, events₂, -, htakes₂, hevents₂, hnext₂⟩ := exists_of_tokenOfCall hclose
  rw [opening_of_token (call_of_tokenOfCall hopen), List.nil_append] at hevents₁
  rw [opening_of_token (call_of_tokenOfCall htext), List.nil_append] at hevents₂
  have hmem : .startElement locator Vocabulary.xhtml "style" attributes ∈ events := by
    rw [hevents, List.mem_append] at hstart
    refine hstart.resolve_left fun hopening => ?_
    simpa [Event.locator?] using locator?_of_mem_opening hopening
  cases htakes with
  | strayOpenEnd => simp at hmem
  | @openEnd e outer uri name' event ho hs =>
    obtain rfl := List.mem_singleton.1 hmem
    obtain ⟨cs, attributes', hcs, -, rfl, rfl, hevent⟩ := startElement_eq_ok hs
    obtain ⟨-, huri, hname, -⟩ := Event.startElement.inj hevent
    have hopened : (r.afterCalls (k + 1)).opened = e :: outer := by rw [hnext]
    cases htakes₁ with
    | @text _ cs₁ hcs₁ =>
      obtain rfl : content.chars = cs₁ := Except.ok.inj ((expand_content_of_not_mem hliteral).symm.trans hcs₁)
      have hopened₁ : (r.afterCalls (k + 2)).opened = e :: outer := by
        rw [hnext₁]
        exact hopened
      cases htakes₂ with
      | @closeTag e' outer' _ _ uri₂ ho₂ hsame hcs₂ =>
        obtain ⟨rfl, rfl⟩ := List.cons.inj (hopened₁.symm.trans ho₂)
        have hcs₂' : OpenElements.namespaceOf (e :: outer) e.name.qualifier = .ok uri₂ := hopened₁ ▸ hcs₂
        have hcs' : OpenElements.namespaceOf (e :: outer) e.name.qualifier = .ok cs := by
          rw [← ho]
          exact hcs
        obtain rfl := Except.ok.inj (hcs'.symm.trans hcs₂')
        have hbase : e.name.base.chars = name.base.chars := of_decide_eq_true (Bool.and_eq_true_iff.1 hsame).2
        rw [← hbase, ← hname, ← huri] at hevents₂
        exact ⟨locator, _, attributes, hevents, hevents₁, hevents₂⟩

/-- The content stands just behind the `>` of the start tag, where the start has its locator. -/
private theorem ReadsStyle.exists_place {source before after : List Char} {systemId : Option String}
    (hsource : source = before ++ content.chars ++ after) (hoffset : content.offset = utf8Size before)
    (h : (start source systemId).ReadsStyle k content) {locator : Locator} {attributes : Attributes}
    (hstart : .startElement locator Vocabulary.xhtml "style" attributes ∈ ((start source systemId).call k).1) :
    ∃ front, before = front ++ ['>'] ∧
      locator = let p := Position.start.after before; ⟨p.line, p.column, systemId, none⟩ := by
  obtain ⟨t, front, -, -, htag, hlocator⟩ := exists_tagEnd source systemId hstart rfl
  obtain ⟨lexer, opened, entities, events, hl, -⟩ := exists_of_tokenOfCall h.text
  obtain ⟨past, hpast, hposition⟩ := (reaches_afterCalls source systemId (k + 1)).1.split
  have hpast : source = past ++ ((start source systemId).afterCalls (k + 1)).lexer.cursor.rest := hpast
  have hfront : past = front ++ ['>'] := by
    refine (List.append_left_inj ((start source systemId).afterCalls (k + 1)).lexer.cursor.rest).1 ?_
    rw [← hpast, List.append_assoc, List.singleton_append]
    exact htag
  have hsize : utf8Size past = utf8Size before := by
    have hpassed : content.offset = utf8Size past := by
      rw [Lexer.offset_of_next?_text hl, hposition, Position.offset_after]
      exact Nat.zero_add _
    rw [← hpassed, hoffset]
  have hcut : past ++ ((start source systemId).afterCalls (k + 1)).lexer.cursor.rest =
      before ++ (content.chars ++ after) := by
    rw [← hpast, hsource, List.append_assoc]
  obtain ⟨hbefore, -⟩ := append_inj_of_utf8Size hcut hsize
  rw [hfront] at hbefore
  rw [← hbefore]
  exact ⟨front, rfl, hlocator⟩

end Reader

end Xml

/-! ### The request for the stylesheet -/

/-- At the end of a `style` element its text is to be read, without a line feed at its start. -/
private theorem Rules.State.notices_style (s : State) (locator locator' : Locator) (attributes : Attributes)
    {lead text : List Char} (hlead : lead = ['\n'] ∨ lead = [] ∧ text.head? ≠ some '\n') :
    let started := s.next (.startElement locator Vocabulary.xhtml "style" attributes)
    let ended := started.next (.characters (.ofList (lead ++ text)))
    ∃ others, ended.notices (.endElement locator' Vocabulary.xhtml "style") =
      .stylesheet (.ofList text) locator lead.length (if s.sourceIsCss then "" else "CSS: ") :: others := by
  intro started ended
  let t : StartTag := ⟨locator, "style", attributes⟩
  let f : Frame := { s.frameOf t with text := .ofList (lead ++ text) }
  have hcollect : (s.frameOf t).collect (.ofList (lead ++ text)) = f := by
    have hcollecting : (s.frameOf t).collecting = true := rfl
    have htext : "" ++ String.ofList (lead ++ text) = .ofList (lead ++ text) := String.empty_append
    rw [Frame.collect, if_pos hcollecting]
    exact congrArg (fun text => { s.frameOf t with text }) htext
  have hframes : ∃ outer, ended.frames = f :: outer := by
    rw [← hcollect]
    exact ⟨_, rfl⟩
  obtain ⟨outer, hframes⟩ := hframes
  have hrequest : ended.styleNotices f =
      [.stylesheet (.ofList text) locator lead.length (if s.sourceIsCss then "" else "CSS: ")] := by
    have hchars : f.text.toList = lead ++ text := String.toList_ofList
    unfold styleNotices
    rw [hchars]
    rcases hlead with rfl | ⟨rfl, hhead⟩
    · rfl
    · dsimp only [List.nil_append]
      split
      · exact absurd rfl hhead
      · rfl
  have hother : "style" ≠ "select" := by decide
  refine ⟨(ended.pendingDescendants.lookup outer.length).toList.map (.violation .activeDescendantElsewhere ·), ?_⟩
  unfold notices
  rw [hframes]
  show (if _ then ended.elementNotices f locator' "style" else _) ++ _ = _
  rw [if_pos rfl, elementNotices, if_neg hother, if_pos rfl, hrequest]
  rfl

/-- A collector that asks for start hints keeps each problem that has been placed. -/
private theorem Rules.Notice.deliverElementProblems_eq (c : Collector) (hhints : c.startHints = true) (origin : Locator)
    (lineOffset : Nat) (heading : String) (problems : List CssProblem) :
    (deliverElementProblems c origin lineOffset heading problems).diagnostics = c.diagnostics ++
      problems.filterMap fun p => (placeProblem origin lineOffset heading p).map PlacedProblem.diagnostic := by
  have hpush : ∀ (placed : List PlacedProblem) (c : Collector), placed.foldl (fun c p => c.push p.diagnostic) c =
      c.add (placed.map PlacedProblem.diagnostic) := by
    intro placed
    induction placed with
    | nil => exact fun c => (Collector.add_nil c).symm
    | cons p placed ih => exact fun c => (ih _).trans (Collector.add_add c [p.diagnostic] _)
  obtain ⟨hcounted, hhinted⟩ := Collector.diagnostics_count c Vocabulary.styleElementErrors problems
  have haccepts : Sink.acceptsStartHint (count c Vocabulary.styleElementErrors problems) = true := hhinted.trans hhints
  unfold deliverElementProblems
  simp only [haccepts, ↓reduceIte]
  refine (congrArg Collector.diagnostics (hpush _ _)).trans ?_
  rw [Collector.diagnostics_add, hcounted, placeProblems, List.map_filterMap]

/-- At the end tag of a `style` element that has been read, its text is to be read by the CSS parser. -/
private theorem Xml.Reader.ReadsStyle.exists_notices {source : List Char} {systemId : Option String} {k offset : Nat}
    {lead text : List Char} (h : (start source systemId).ReadsStyle k ⟨offset, lead ++ text⟩)
    (hlead : lead = ['\n'] ∨ lead = [] ∧ text.head? ≠ some '\n') (s : Rules.State) :
    let r := start source systemId
    ∃ locator locator' attributes others, .startElement locator Vocabulary.xhtml "style" attributes ∈ (r.call k).1 ∧
      (r.call (k + 2)).1 = [.endElement locator' Vocabulary.xhtml "style"] ∧
      (s.run (r.eventsOfCalls (k + 2))).notices (.endElement locator' Vocabulary.xhtml "style") =
        .stylesheet (.ofList text) locator lead.length (if s.sourceIsCss then "" else "CSS: ") :: others := by
  intro r
  obtain ⟨locator, locator', attributes, hstart, hcharacters, hend⟩ := h.events
  let before := s.run (r.eventsOfCalls k ++ (r.afterCalls k).opening)
  obtain ⟨others, hothers⟩ := Rules.State.notices_style before locator locator' attributes hlead
  have hrun : s.run (r.eventsOfCalls (k + 2)) =
      (before.next (.startElement locator Vocabulary.xhtml "style" attributes)).next
        (.characters (.ofList (lead ++ text))) := by
    rw [eventsOfCalls, hcharacters, eventsOfCalls, hstart, Rules.State.run_append, ← List.append_assoc,
      Rules.State.run_append]
    rfl
  have hconfigured : before.sourceIsCss = s.sourceIsCss := by
    have hkept := sourceIsCss_eventsOfCalls s source systemId (k + 1)
    rw [eventsOfCalls, hstart, ← List.append_assoc, Rules.State.run_append] at hkept
    exact hkept
  refine ⟨locator, locator', attributes, others, ?_, hend, ?_⟩
  · rw [hstart]
    exact List.mem_append_right _ (List.mem_singleton_self _)
  · rw [hrun, hothers, hconfigured]

namespace Checker

open Xml (Reader)
open Rules (Notice)

/-- A document that is read up to a call and on. -/
private theorem read_eq {m : Type → Type} [Monad m] [LawfulMonad m] (css : CssParser m) (c : Checker Collector)
    {source : List Char} {systemId : Option String} {k : Nat} :
    let r := Reader.start source systemId
    (r.call k).2 = .token → ∃ later, c.read css source systemId = do
      let reached ← c.afterCalls css r k
      return (← reached.feedAll css ((r.call k).1 ++ later), r.error?) := by
  intro r h
  obtain ⟨i, -, outcome, ho, hstops⟩ := Reader.exists_stopsAt source systemId
  have hki : k + 1 ≤ i + 1 := Nat.succ_le_succ (Nat.le_of_lt (hstops.lt_of_token ho h))
  obtain ⟨later, hlater⟩ := r.exists_eventsOfCalls_append hki
  refine ⟨later, ?_⟩
  have hevents : r.events = r.eventsOfCalls k ++ ((r.call k).1 ++ later) := by
    rw [Reader.events_eq hstops ho, hlater, Reader.eventsOfCalls, List.append_assoc]
  show (do return (← c.feedAll css r.events, r.error?)) = _
  rw [hevents, feedAll_append, ← afterCalls_eq, bind_assoc]

/-- In a document without carriage returns, the content of a `style` element is the plain text `lead ++ text`, where
`lead` is a line feed or nothing, and the CSS parser, whatever its own state is by then, reads `text`. Its problems with
a message become diagnostics in their order. The report of such a problem shows the part of the document that the
problem is about if and only if the problem does not start in the line of the start tag, or starts at the end of that
line and goes on in the next. -/
theorem read_style {S : Type} (css : CssParser (StateM S)) (s : S) (c : Checker Collector)
    {before lead text after : List Char} {systemId : Option String} {k : Nat} (hhints : c.sink.startHints = true)
    (hlead : lead = ['\n'] ∨ lead = [] ∧ text.head? ≠ some '\n') :
    let source := before ++ lead ++ text ++ after
    let r := Reader.start source systemId
    let heading := if c.state.sourceIsCss then "" else "CSS: "
    '\r' ∉ source → r.ReadsStyle k ⟨utf8Size before, lead ++ text⟩ →
      let reached := (c.afterCalls css r (k + 2)).run s
      let problems := ((css.stylesheet (.ofList text)).run reached.2).1
      ∃ diagnosed later, ((c.read css source systemId).run s).1.1.sink.diagnostics =
          reached.1.sink.diagnostics ++ problems.filterMap diagnosed ++ later ∧
        ∀ p pre mid post message, text = pre ++ mid ++ post → p.Covers pre mid → p.message = some message →
          ∃ d, diagnosed p = some d ∧
            (d.report source = ⟨.error, heading ++ message,
                [{ span := ⟨utf8Size (before ++ lead ++ pre), utf8Size (before ++ lead ++ pre ++ mid)⟩ }]⟩ ↔
              lead ≠ [] ∨ '\n' ∈ pre ∨ mid.head? = some '\n') := by
  intro source r heading hr hstyle reached problems
  obtain ⟨locator, locator', attributes, others, hstart, hend, hnotices⟩ := hstyle.exists_notices hlead c.state
  obtain ⟨name, span, hclose⟩ := hstyle.endTag
  obtain ⟨later, hread⟩ := read_eq css c (Reader.call_of_tokenOfCall hclose)
  have hsource : source = before ++ (lead ++ text) ++ after := by simp [source]
  obtain ⟨front, rfl, hlocator⟩ := hstyle.exists_place hsource rfl hstart
  have hreached : reached.1.state = c.state.run (r.eventsOfCalls (k + 2)) := by
    show ((c.afterCalls css r (k + 2)).run s).1.state = _
    rw [afterCalls_eq, feedAll_eq]
    rfl
  rw [← hreached] at hnotices
  have hhinted : reached.1.sink.startHints = true := by
    have hkept := (extends_feedAll css s c (r.eventsOfCalls (k + 2))).startHints
    rw [← afterCalls_eq] at hkept
    exact hkept.trans hhints
  -- The problems are delivered first of all that the end tag gives rise to, and then nothing is taken away any more.
  have hextends : (Notice.deliverElementProblems reached.1.sink locator lead.length heading problems).Extends
      ((c.read css source systemId).run s).1.1.sink := by
    have hfinal : ((c.read css source systemId).run s).1.1 =
        ((reached.1.feedAll css ((r.call (k + 2)).1 ++ later)).run reached.2).1 := by
      rw [hread]
      rfl
    rw [hfinal, hend, List.singleton_append, feedAll_eq, Rules.State.runNotices_cons, hnotices, List.cons_append]
    exact Collector.extends_foldlM css _ _ _
  obtain ⟨more, hmore⟩ := hextends.diagnostics
  refine ⟨fun p => (placeProblem locator lead.length heading p).map PlacedProblem.diagnostic, more, ?_, ?_⟩
  · rw [← hmore, Rules.Notice.deliverElementProblems_eq _ hhinted]
  · rintro p pre mid post message rfl hcovers hmessage
    have hsource : source = front ++ ['>'] ++ lead ++ pre ++ mid ++ (post ++ after) := by simp [source]
    rw [hsource] at hr ⊢
    obtain ⟨placed, hplaced, hreport⟩ := CssProblem.report_place_iff (hlead.imp_right And.left) hcovers hmessage
      systemId heading hr
    have hplaced' : placeProblem locator lead.length heading p = some placed := by
      rw [hlocator]
      exact hplaced
    exact ⟨placed.diagnostic, congrArg (Option.map PlacedProblem.diagnostic) hplaced', hreport⟩

/-- A problem about the `a`, on the line behind that of the tag. -/
theorem read_style_laterLine :
    let before := "<style xmlns='http://www.w3.org/1999/xhtml'>".toList
    let source := before ++ ['\n'] ++ "a{}".toList ++ "</style>".toList
    let p : CssProblem := ⟨1, 1, 1, 2, .other "?"⟩
    let css : CssParser (StateM Unit) := ⟨fun _ => pure [p], fun _ _ => pure []⟩
    let c : Checker Collector := { sink := { startHints := true } }
    '\r' ∉ source ∧ (Reader.start source none).ReadsStyle 2 ⟨utf8Size before, "\na{}".toList⟩ ∧ p.Covers [] ['a'] ∧
      ∃ d ∈ ((c.read css source none).run ()).1.1.sink.diagnostics,
        d.report source = ⟨.error, "CSS: ?", [{ span := ⟨45, 46⟩ }]⟩ := by
  intro before source p css c
  have hr : '\r' ∉ source := by decide +kernel
  have hstyle : (Reader.start source none).ReadsStyle 2 ⟨utf8Size before, "\na{}".toList⟩ :=
    ⟨⟨⟨1, 45, none, none⟩, [], by decide +kernel⟩, by decide +kernel, by decide +kernel,
      ⟨⟨⟨50, []⟩, ⟨50, "style".toList⟩⟩, ⟨48, 56⟩, by decide +kernel⟩, by decide +kernel⟩
  have hcovers : p.Covers [] ['a'] := ⟨rfl, rfl, rfl, rfl⟩
  obtain ⟨diagnosed, later, hdiagnostics, hreport⟩ :=
    @read_style Unit css () c before ['\n'] "a{}".toList "</style>".toList none 2 rfl (.inl rfl) hr hstyle
  obtain ⟨d, hd, hshown⟩ := hreport p [] ['a'] "{}".toList "?" rfl hcovers rfl
  refine ⟨hr, hstyle, hcovers, d, ?_, hshown.2 (.inl (List.cons_ne_nil _ _))⟩
  have hmem : d ∈ [p].filterMap diagnosed := List.mem_filterMap.2 ⟨p, List.mem_singleton_self p, hd⟩
  rw [hdiagnostics]
  exact List.mem_append_left _ (List.mem_append_right _ hmem)

/-- The same problem in the line of the tag: its end is sought where the document starts. -/
theorem read_style_ne_of_firstLine :
    let before := "<style xmlns='http://www.w3.org/1999/xhtml'>".toList
    let source := before ++ "a{}".toList ++ "</style>".toList
    let p : CssProblem := ⟨1, 1, 1, 2, .other "?"⟩
    let css : CssParser (StateM Unit) := ⟨fun _ => pure [p], fun _ _ => pure []⟩
    let c : Checker Collector := { sink := { startHints := true } }
    '\r' ∉ source ∧ (Reader.start source none).ReadsStyle 2 ⟨utf8Size before, "a{}".toList⟩ ∧ p.Covers [] ['a'] ∧
      ((c.read css source none).run ()).1.1.sink.diagnostics.map (Diagnostic.report source) =
        [⟨.error, "CSS: ?", [{ span := ⟨1, 1⟩ }]⟩] ∧
      (⟨1, 1⟩ : Span) ≠ ⟨utf8Size before, utf8Size (before ++ ['a'])⟩ := by
  intro before source p css c
  refine ⟨by decide +kernel, ?_, ⟨rfl, rfl, rfl, rfl⟩, by decide +kernel, by decide +kernel⟩
  exact ⟨⟨⟨1, 45, none, none⟩, [], by decide +kernel⟩, by decide +kernel, by decide +kernel,
    ⟨⟨⟨49, []⟩, ⟨49, "style".toList⟩⟩, ⟨47, 55⟩, by decide +kernel⟩, by decide +kernel⟩

end Checker

end MapMarkup
