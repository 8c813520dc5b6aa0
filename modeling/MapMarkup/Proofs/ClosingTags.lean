import MapMarkup.Proofs.ErrorPlaces

/-!
# What end tags meet

The lexer gives an end tag only where it counts an open element, and the reader keeps as many elements as the lexer
counts. So an end tag always meets an element, the innermost one that has been started and not been ended
(`Reader.exists_inContentOf`). Whatever has been declared since in elements that have been ended, the qualifier of this
element still stands for the URI with which it has been started. The only question at an end tag is therefore whether
its name is spelled as that of the element: `Reader.call_of_endTag`.
-/

namespace MapMarkup.Xml

open Event (nestAll?)

namespace Reader

/-- In front of call `k` the lexer is in the content of this element, which is the first one that the reader keeps and
the innermost one by the tokens and by the events. It has been started with the URI, and its qualifier stands for it. -/
structure InContentOf (r : Reader) (k : Nat) (element : OpenElement) (outer : OpenElements) (uri : List Char) : Prop where
  opened_eq : (r.afterCalls k).opened = element :: outer
  phase_eq : (r.afterCalls k).lexer.phase = .content (outer.length + 1)
  isInnermost : IsInnermost (r.tokensOfCalls k) element.name element.span
  started : ∃ body names, r.eventsOfCalls k = .startDocument :: body ∧
    nestAll? [] body = some ((.ofList uri, .ofList element.name.base.chars) :: names)
  namespaceOf_eq : (r.afterCalls k).opened.namespaceOf element.name.qualifier = .ok uri

/-- No call in front of call `k` has failed, and the lexer gives this end tag there. -/
def AtEndTag (r : Reader) (k : Nat) (name : QName) (span : Span) : Prop :=
  (∀ j < k, ∀ e, (r.call j).2 ≠ .failed e) ∧
    ∃ lexer, (r.afterCalls k).lexer.next? = .ok (some (.closeTag name span, lexer))

variable {source : List Char} {systemId : Option String} {k : Nat}

/-- Where the lexer gives a token and no call has failed, all calls have read tokens: it gives no more tokens once it has
come to the end of the document. -/
private theorem before_of_next? {t : Token} {lexer : Lexer} :
    let r := start source systemId
    (∀ j < k, ∀ e, (r.call j).2 ≠ .failed e) → (r.afterCalls k).lexer.next? = .ok (some (t, lexer)) →
      ∀ j < k, (r.call j).2 = .token := by
  intro r hfailed hl j hj
  obtain ⟨i, -, outcome, ho, hstops⟩ := exists_stopsAt source systemId
  rcases Nat.lt_or_ge j i with hji | hij
  · exact hstops.before j hji
  · have hik : i < k := Nat.lt_of_le_of_lt hij hj
    have hs := stage_ne_of_before hstops.before
    have hfinished : (r.afterCalls i).advance.2.2 = .finished := by
      have hhere : (r.afterCalls i).advance.2.2 = outcome := hstops.here
      cases outcome with
      | token => exact absurd rfl ho
      | failed e => exact absurd hhere (hfailed i hik e)
      | finished => exact hhere
    have hne : (r.call i).2 ≠ .token := hstops.here ▸ ho
    have hafter := (afterCalls_succ_of_ne_token hne).1
    have hend := (atEnd_of_advance hs hfinished).1
    rw [afterCalls_of_finished (by rw [hafter]) hik, hafter] at hl
    exact absurd (hend.symm.trans hl) (by simp)

/-- The first call, which starts the document, does not stand in content. -/
private theorem opening_of_content {depth : Nat} (hbefore : ∀ j < k, ((start source systemId).call j).2 = .token)
    (hphase : ((start source systemId).afterCalls k).lexer.phase = .content depth) :
    ((start source systemId).afterCalls k).opening = [] := by
  rw [opening_afterCalls source systemId hbefore, if_neg]
  rintro rfl
  simp [afterCalls, start, Lexer.start] at hphase

/-- Wherever the lexer is in content, there is an element in whose content it is. -/
theorem exists_inContentOf {depth : Nat} :
    let r := start source systemId
    (∀ j < k, (r.call j).2 = .token) → (r.afterCalls k).lexer.phase = .content depth →
      ∃ element outer uri, r.InContentOf k element outer uri := by
  intro r hbefore hphase
  obtain ⟨body, names, hsaid, hnested, hagree, -⟩ := exists_rooted source systemId hbefore
  have hleads := leads_afterCalls hbefore
  rw [opening_of_content hbefore hphase, List.append_nil] at hsaid
  rw [hphase] at hagree
  obtain ⟨element, outer, uri, outerNames, ho, rfl, huri, rfl⟩ := hagree.exists_innermost
  rw [ho] at hleads
  exact ⟨element, outer, uri, ho, hphase, hleads.isInnermost, ⟨body, outerNames, hsaid, hnested⟩, huri⟩

/-- At an end tag in the content of an element, the call ends the element if the names are spelled alike, and otherwise
fails. -/
private theorem InContentOf.call_of_closeTag {element : OpenElement} {outer : OpenElements} {uri : List Char}
    {name : QName}
    {span : Span} {lexer : Lexer} :
    let r := start source systemId
    r.InContentOf k element outer uri → (∀ j < k, (r.call j).2 = .token) →
      (r.afterCalls k).lexer.next? = .ok (some (.closeTag name span, lexer)) →
        if element.name.sameAs name then
          r.call k = ([.endElement (r.afterCalls (k + 1)).locator (.ofList uri) (.ofList name.base.chars)], .token) ∧
            (r.afterCalls (k + 1)).opened = outer
        else r.call k = ([], .failed (.mismatchedEndTag element.span span)) := by
  intro r hin hbefore hl
  have hs := stage_ne_of_before hbefore
  have hopening := opening_of_content hbefore hin.phase_eq
  have htake := takeToken_closeTag (r := { r.afterCalls k with lexer }) hin.opened_eq hin.namespaceOf_eq name span
  by_cases hsame : element.name.sameAs name
  · rw [if_pos hsame] at htake ⊢
    have hadvance := advance_of_token hs hl htake
    -- The locator of the event is that of the reader behind the tag, which has taken the lexer over.
    have hlocator : (r.afterCalls (k + 1)).locator = ({ r.afterCalls k with lexer } : Reader).locator :=
      congrArg (·.1.locator) hadvance
    have hcall := congrArg Prod.snd hadvance
    rw [hopening] at hcall
    rw [hlocator]
    exact ⟨hcall, congrArg (·.1.opened) hadvance⟩
  · rw [if_neg hsame] at htake ⊢
    have hcall := congrArg Prod.snd (advance_of_failed hs hl htake)
    rwa [hopening] at hcall

/-- An end tag always meets the innermost open element, which the reader and the lexer have counted alike and whose
qualifier stands for the URI of its start. The call ends this element, under that URI, if the names are spelled alike,
qualifiers included. Otherwise it fails for the two tags that do not match, and it never fails for anything else. No
call on any document finds an end tag without an open element. -/
theorem call_of_endTag (source : List Char) (systemId : Option String) (k : Nat) :
    let r : Reader := start source systemId
    (∀ closing, (r.call k).2 ≠ .failed (.unexpectedEndTag closing)) ∧
    ∀ name span, r.AtEndTag k name span → ∃ element outer uri, r.InContentOf k element outer uri ∧
      ((r.call k).2 = .token ↔
        element.name.qualifier.chars = name.qualifier.chars ∧ element.name.base.chars = name.base.chars) ∧
      ((r.call k).2 = .token →
        (r.call k).1 = [.endElement (r.afterCalls (k + 1)).locator (.ofList uri) (.ofList name.base.chars)] ∧
          (r.afterCalls (k + 1)).opened = outer) ∧
      ∀ e, (r.call k).2 = .failed e ↔ e = .mismatchedEndTag element.span span ∧
        (element.name.qualifier.chars ≠ name.qualifier.chars ∨ element.name.base.chars ≠ name.base.chars) := by
  intro r
  constructor
  · intro closing hfailed
    obtain ⟨texts, hblames, -⟩ := exists_blames hfailed
    -- Nothing is to blame for such an error.
    cases hblames with
    | reference _ _ hfails => cases hfails
  · rintro name span ⟨hfailed, lexer, hl⟩
    have hbefore := before_of_next? hfailed hl
    obtain ⟨depth, hphase⟩ := (Lexer.goes_of_next? hl).exists_of_closeTag
    obtain ⟨element, outer, uri, hin⟩ := exists_inContentOf hbefore hphase
    have hcall := hin.call_of_closeTag hbefore hl
    refine ⟨element, outer, uri, hin, ?_⟩
    rw [← not_and_or, ← QName.sameAs_iff]
    split at hcall
    · rename_i hsame
      obtain ⟨hcall, hopened⟩ := hcall
      simp [r, hcall, hsame, hopened]
    · rename_i hsame
      simp [r, hcall, hsame, eq_comm]

/-- The inner element declares the qualifier of the outer one anew. Behind it, the qualifier has its old meaning. -/
theorem call_of_endTag_redeclaredQualifier :
    let r := start "<p:a xmlns:p='u'><p:b xmlns:p='v'/></p:a>".toList none
    let name : QName := ⟨⟨37, ['p']⟩, ⟨39, ['a']⟩⟩
    r.AtEndTag 6 name ⟨35, 41⟩ ∧ ∃ element outer, r.InContentOf 6 element outer ['u'] ∧ (r.call 6).2 = .token ∧
      (r.call 6).1 = [.endElement (r.afterCalls 7).locator "u" "a"] := by
  intro r name
  have htokens : ∀ j < 6, (r.call j).2 = .token := by decide +kernel
  have hat : r.AtEndTag 6 name ⟨35, 41⟩ := by
    refine ⟨fun j hj e => ?_, ⟨.afterRoot, ⟨41, 1, 42⟩, []⟩, by decide +kernel⟩
    rw [htokens j hj]
    exact Outcome.noConfusion
  obtain ⟨element, outer, uri, hin, htoken, hsaid, -⟩ := (call_of_endTag _ none 6).2 name ⟨35, 41⟩ hat
  have ho : (r.afterCalls 6).opened = [⟨⟨⟨1, ['p']⟩, ⟨3, ['a']⟩⟩, ⟨0, 4⟩, [(['p'], ['u'])], []⟩] := by decide +kernel
  obtain ⟨rfl, rfl⟩ := List.cons.inj (hin.opened_eq.symm.trans ho)
  obtain rfl : ['u'] = uri := by
    have huri := hin.namespaceOf_eq
    rw [ho] at huri
    exact Except.ok.inj huri
  have hread := htoken.2 ⟨rfl, rfl⟩
  exact ⟨hat, _, _, hin, hread, (hsaid hread).1⟩

/-- An end tag without the qualifier of its start tag does not match it. -/
example :
    (start "<p:a xmlns:p='u'><p:b xmlns:p='v'/></a>".toList none).error? = some (.mismatchedEndTag ⟨0, 4⟩ ⟨35, 39⟩) := by
  decide +kernel

end Reader

end MapMarkup.Xml
