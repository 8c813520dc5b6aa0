import MapMarkup.Proofs.EntityReferences
import MapMarkup.Proofs.Failures
import MapMarkup.Proofs.LineTables
import MapMarkup.Proofs.Passages

/-!
# What errors of reading point at

When a call fails, the report of its error shows stretches of the document. They can be cut out of it, and what they
cover is what the call has failed for (`Reader.Blames`): a qualifier, the name of an entity, the first reference of a
passage that cannot be replaced, an end tag and the start of the innermost element that is open, or that start alone
(`Reader.marks_of_failed`). Markup that is malformed is shown by an empty stretch.
-/

namespace MapMarkup

open Xml (Passage ReadError)

/-! ### Stretches -/

private theorem Xml.Passage.IsPartOf.covers {source : List Char} {p : Passage} (h : p.IsPartOf (.ofSource source)) :
    p.span.Covers source p.chars := by
  obtain ⟨before, after, hchars, hoffset⟩ := h
  refine ⟨before, after, hchars, ?_⟩
  rw [Passage.span, hoffset, utf8Size_append]
  simp [Passage.ofSource]

namespace LineTable

/-- The stretches of an error of reading, cut out of the document. -/
def marks? (t : LineTable) : ReadError → Option (List Mark)
  | .malformed e => do
    let text ← t.lineText? (e.position.line - 1)
    let line ← t.lineSpan? (e.position.line - 1)
    let start := (charOffsets 0 text)[e.position.column - 1]?.getD 0
    return [{ span := ← line.part? start start }]
  | e => (e.marks t.source).mapM fun mark => do
    return { mark with span := ← t.span.part? mark.span.low mark.span.high }

variable {source : List Char}

/-- Stretches that are in the document are cut out as they are. -/
private theorem mapM_part?_of_covers {marks : List Mark} (h : ∀ mark ∈ marks, ∃ text, mark.span.Covers source text) :
    (marks.mapM fun mark => do
      return { mark with span := ← (ofSource source).span.part? mark.span.low mark.span.high }) = some marks := by
  induction marks with
  | nil => rfl
  | cons mark marks ih =>
    obtain ⟨text, hcovers⟩ := h mark (by simp)
    rw [List.mapM_cons, ih fun other hother => h other (List.mem_cons_of_mem _ hother), part?_of_covers hcovers]
    rfl

/-- Malformed markup is shown in front of the character at its column, or at the start of the line if there is none. -/
theorem shownAt_of_isLine {e : Xml.Malformed} {above visible ends below : List Char}
    (h : IsLine source e.position.line above visible ends below) :
    e.shownAt source = utf8Size
      (above ++ if e.position.column - 1 < visible.length then visible.take (e.position.column - 1) else []) := by
  obtain ⟨l, hget, hstart, hvisible⟩ := h.exists_getElem?_linesOf
  rw [Xml.Malformed.shownAt, hget, utf8Size_append]
  dsimp only
  rw [hstart, hvisible, Line.bytesBefore, hvisible]
  split <;> rfl

/-- Malformed markup is shown in the line in which it has been found. -/
theorem marks?_malformed {e : Xml.Malformed} (h : HasLine source e.position.line) :
    (ofSource source).marks? (.malformed e) = some [{ span := ⟨e.shownAt source, e.shownAt source⟩ }] ∧
      Span.Covers source ⟨e.shownAt source, e.shownAt source⟩ [] := by
  obtain ⟨above, visible, ends, below, hline⟩ := exists_isLine h
  have hoffset := shownAt_of_isLine hline
  generalize hshown : e.position.column - 1 = n at hoffset
  -- The characters in front of the place in its line.
  generalize hfront : (if n < visible.length then visible.take n else []) = front at hoffset
  have hplace : (charOffsets 0 visible)[n]?.getD 0 = utf8Size front := by
    rw [← hfront]
    by_cases hn : n < visible.length
    · simp [hn, getElem?_charOffsets hn]
    · rw [List.getElem?_eq_none (by rw [length_charOffsets]; omega)]
      simp [hn]
  have hprefix : front <+: visible := by
    rw [← hfront]
    split
    · exact List.take_prefix n visible
    · exact List.nil_prefix
  obtain ⟨back, hback⟩ := hprefix
  constructor
  · have hle : utf8Size above + utf8Size front ≤ utf8Size (above ++ visible ++ ends) := by
      rw [← utf8Size_append, ← hback]
      exact utf8Size_le_of_isPrefix ⟨back ++ ends, by simp⟩
    have hpart : Span.part? ⟨utf8Size above, utf8Size (above ++ visible ++ ends)⟩ (utf8Size front) (utf8Size front) =
        some ⟨e.shownAt source, e.shownAt source⟩ := by
      rw [hoffset, utf8Size_append above]
      exact if_pos ⟨Nat.le_refl _, hle⟩
    rw [marks?, lineText?_of_isLine hline, lineSpan?_of_isLine hline]
    simp only [Option.bind_eq_bind, Option.bind_some, hshown, hplace, hpart]
    rfl
  · refine ⟨above ++ front, back ++ ends ++ below, ?_, by rw [hoffset, List.append_nil]⟩
    rw [hline.source_eq, ← hback]
    simp

end LineTable

namespace Xml

/-! ### References that cannot be replaced -/

namespace Substitution

variable (s : Substitution) {e : ReadError}

/-- A reference that cannot be replaced is one to no character, or one to an entity. -/
private theorem piece_reference_eq_error {written : Passage} (h : s.piece (.reference written) = .error e) :
    (∃ number, written.chars = '#' :: number ∧ (∀ c, ¬ WritesCharacter number c) ∧
      e = .brokenReference written.span) ∨
    written.chars.head? ≠ some '#' ∧ s.entity written = .error e := by
  simp only [piece] at h
  split at h
  · simp at h
  · rename_i hinvalid
    have hsign : written.chars.head? = some '#' := by
      by_contra hnot
      rw [referent_eq_entity_iff.2 hnot] at hinvalid
      simp at hinvalid
    obtain ⟨number, hnumber⟩ := List.head?_eq_some_iff.1 hsign
    refine .inl ⟨number, hnumber, fun c hc => ?_, (Except.error.inj h).symm⟩
    rw [hnumber, referent_numberSign_eq_character_iff.2 hc] at hinvalid
    simp at hinvalid
  · rename_i hentity
    exact .inr ⟨referent_eq_entity_iff.1 hentity, h⟩

end Substitution

/-- Reading the passage fails with this error for the reference behind `left`, the first one that cannot be replaced.
The text is the name of an entity that has no replacement text, or the number sign and the number that is that of no
character, or the ampersand of a reference without a semicolon. -/
inductive Purpose.FailsAt (purpose : Purpose) (entities : Entities) (p : Passage) : ReadError → List Char → Prop
  | undefinedEntity {left name right text : List Char} (href : RefersTo p left name right)
    (hleft : purpose.read entities ⟨p.offset, left⟩ = .ok text) (hnone : entities.get? name = none) :
    FailsAt purpose entities p (.undefinedEntity ⟨p.offset + utf8Size left + 1, name⟩) name
  | noCharacter {left number right text : List Char} (hchars : p.chars = left ++ '&' :: ('#' :: number ++ ';' :: right))
    (hclosed : Closed left) (hleft : purpose.read entities ⟨p.offset, left⟩ = .ok text) (hnumber : ';' ∉ number)
    (hnone : ∀ c, ¬ WritesCharacter number c) :
    FailsAt purpose entities p
      (.brokenReference (Passage.span ⟨p.offset + utf8Size left + 1, '#' :: number⟩)) ('#' :: number)
  | unclosed {left right text : List Char} (hchars : p.chars = left ++ '&' :: right) (hclosed : Closed left)
    (hleft : purpose.read entities ⟨p.offset, left⟩ = .ok text) (hne : right ≠ []) (hright : ';' ∉ right) :
    FailsAt purpose entities p (.brokenReference (Passage.span ⟨p.offset + utf8Size left, ['&']⟩)) ['&']

namespace Purpose

variable {purpose : Purpose} {entities : Entities} {p : Passage} {e : ReadError}

private theorem entity_eq_error (h : (purpose.substitution entities).entity p = .error e) :
    entities.get? p.chars = none ∧ e = .undefinedEntity p := by
  refine ⟨?_, (purpose.substitution entities).eq_of_entity p e h⟩
  cases purpose with
  | text | attributeValue =>
    simp only [substitution, Substitution.expansion] at h
    split at h
    · simp at h
    · assumption
  | entityValue => simp [substitution, Substitution.replacement] at h

private theorem exists_failsAt_of_read (h : purpose.read entities p = .error e) :
    ∃ text, purpose.FailsAt entities p e text := by
  obtain ⟨o, cs⟩ := p
  rw [read_eq_apply] at h
  obtain ⟨left, text, right, hclosed, hleft, hfault⟩ :=
    (purpose.substitution entities).exists_of_apply_eq_error h
  rw [← read_eq_apply] at hleft
  rcases hfault with ⟨rfl, hne, hright, rfl⟩ | ⟨written, rfl, hwritten, hpiece⟩
  · exact ⟨_, .unclosed rfl hclosed hleft hne hright⟩
  · rcases Substitution.piece_reference_eq_error _ hpiece with ⟨number, hnumber, hnone, rfl⟩ | ⟨hsign, hentity⟩
    · obtain rfl : written = '#' :: number := hnumber
      exact ⟨_, .noCharacter rfl hclosed hleft (fun h => hwritten (List.mem_cons_of_mem _ h)) hnone⟩
    · obtain ⟨hnone, rfl⟩ := entity_eq_error hentity
      exact ⟨_, .undefinedEntity ⟨rfl, hclosed, hwritten, hsign⟩ hleft hnone⟩

end Purpose

/-! ### Open elements -/

private theorem OpenElement.span_ofTag (name : QName) (span : Span) (tag : List RawAttribute) :
    (ofTag name span tag).span = span := by
  have hadd : ∀ (e : OpenElement) (name : QName) (value : Passage), (e.addAttribute name value).span = e.span := by
    intro e name value
    unfold OpenElement.addAttribute
    split
    · rfl
    · split <;> rfl
  induction tag using List.reverseRecOn with
  | nil => rfl
  | append_singleton tag a ih => rw [ofTag_concat, hadd, ih]

/-- The innermost element that is open behind the tokens has this name, and its start tag starts with this stretch:
whatever has been started behind it has been ended. -/
def IsInnermost (ts : List Token) (name : QName) (span : Span) : Prop :=
  ∃ before later, ts = before ++ .elementStart name span :: later ∧ Balanced later

theorem Leads.isInnermost {ts : List Token} {p : Phase} {element : OpenElement} {outer : OpenElements}
    (h : Leads ts p (element :: outer)) : IsInnermost ts element.name element.span := by
  have htag : ∀ {us : List Token} {depth : Nat}, Leads us (.inTag depth) (element :: outer) →
      ∃ before, ∃ tag : List RawAttribute,
        us = before ++ .elementStart element.name element.span :: tag.map RawAttribute.token := by
    intro us depth hus
    obtain ⟨before, p, outer', name, span, tag, rfl, ho, -⟩ := hus.of_inTag
    obtain ⟨rfl, -⟩ := List.cons.inj ho
    rw [OpenElement.name_ofTag, OpenElement.span_ofTag]
    exact ⟨before, tag, rfl⟩
  cases h with
  | inTag hbefore hp hd name span tag =>
    obtain ⟨before, tag', heq⟩ := htag (.inTag hbefore hp hd name span tag)
    exact ⟨before, _, heq, balanced_tag tag'⟩
  | @content inner gap depth _ hinner hgap =>
    obtain ⟨before, tag, rfl⟩ := htag hinner
    refine ⟨before, tag.map RawAttribute.token ++ .openEnd :: gap, by simp, ?_⟩
    exact (balanced_tag tag).append ((Balanced.singleton (t := .openEnd) rfl).append hgap)

/-- A start tag starts with `<` and the name of the element. -/
private theorem IsInnermost.exists_spelled {source : List Char} {systemId : Option String} {k : Nat} {name : QName}
    {span : Span} (h : IsInnermost ((Reader.start source systemId).tokensOfCalls k) name span) :
    ∃ spelled, name.ReadFrom ⟨span.low + 1, spelled⟩ ∧ span.Covers source ('<' :: spelled) := by
  obtain ⟨before, later, htokens, -⟩ := h
  have hmem : .elementStart name span ∈ (Reader.start source systemId).tokensOfCalls k := by
    rw [htokens]
    simp
  cases Reader.readFrom_of_mem_tokensOfCalls hmem with
  | elementStart hpart hname => exact ⟨_, hname, hpart.covers⟩

/-! ### Parts of the document -/

/-- The marks show the texts, one each. -/
def MarksCover (source : List Char) (marks : List Mark) (texts : List (List Char)) : Prop :=
  List.Forall₂ (fun mark text => mark.span.Covers source text) marks texts

section Parts

variable {source : List Char} {systemId : Option String} {k : Nat} {e : ReadError}

private theorem Passage.IsPartOf.of_reference (o : Nat) (left written right : List Char) :
    IsPartOf ⟨o + utf8Size left + 1, written⟩ ⟨o, left ++ '&' :: (written ++ ';' :: right)⟩ := by
  refine ⟨left ++ ['&'], ';' :: right, by simp, ?_⟩
  rw [utf8Size_append, ← Nat.add_assoc]
  rfl

/-- The reference at which the reading of a passage fails stands in the passage. -/
private theorem Purpose.FailsAt.covers {purpose : Purpose} {entities : Entities} {p : Passage} {text : List Char}
    (h : purpose.FailsAt entities p e text) (hp : p.IsPartOf (.ofSource source)) :
    MarksCover source (e.marks source) [text] := by
  obtain ⟨o, cs⟩ := p
  cases h with
  | @undefinedEntity left _ right _ href =>
    obtain rfl : cs = _ := href.chars_eq
    exact .cons ((Passage.IsPartOf.of_reference o left text right).trans hp).covers .nil
  | @noCharacter left number right _ hchars =>
    obtain rfl : cs = _ := hchars
    exact .cons ((Passage.IsPartOf.of_reference o left ('#' :: number) right).trans hp).covers .nil
  | @unclosed left right _ hchars =>
    obtain rfl : cs = _ := hchars
    have hpart : Passage.IsPartOf ⟨o + utf8Size left, ['&']⟩ ⟨o, left ++ '&' :: right⟩ := ⟨left, right, by simp, rfl⟩
    exact .cons (hpart.trans hp).covers .nil

/-- The qualifier of a name is part of what spells the name. -/
private theorem QName.ReadFrom.qualifier_isPartOf {spelled : Passage} {name : QName} (h : name.ReadFrom spelled) :
    name.qualifier.IsPartOf spelled := by
  cases h with
  | plain => exact ⟨[], spelled.chars, rfl, rfl⟩
  | qualified o qualifier base => exact .left o qualifier _

/-- The first qualifier without a meaning stands in the start tag. -/
private theorem Passage.IsPartOf.of_firstUndefined {before : List Token} {name : QName} {span : Span}
    {tag : List RawAttribute} {entities : Entities} {q : Passage}
    (htag : (Reader.start source systemId).tokensOfCalls k =
      before ++ .elementStart name span :: tag.map RawAttribute.token)
    (hfirst : FirstUndefined ((Reader.start source systemId).tokensOfCalls k) entities name
      (tag.filter (!·.name.isDeclaration)) q) : q.IsPartOf (.ofSource source) := by
  have hread : ∀ t ∈ before ++ .elementStart name span :: tag.map RawAttribute.token,
      t.ReadFrom (.ofSource source) := by
    intro t ht
    exact Reader.readFrom_of_mem_tokensOfCalls (htag ▸ ht)
  rcases hfirst with ⟨-, rfl⟩ | ⟨-, front, a, back, hsplit, -, rfl, -⟩
  · cases hread (.elementStart name span) (by simp) with
    | @elementStart o spelled _ hpart hname =>
      exact (hname.qualifier_isPartOf.trans (.right o ['<'] spelled)).trans hpart
  · have ha : a ∈ tag := (List.mem_filter.1 (by rw [hsplit]; simp : a ∈ tag.filter (!·.name.isDeclaration))).1
    cases hread a.token (by simp [List.mem_map_of_mem ha]) with
    | attr hpart hname _ => exact hname.qualifier_isPartOf.trans hpart

/-- Malformed markup is found at a place of the document. -/
theorem exists_place_of_error {error : Malformed}
    (h : ((Reader.start source systemId).afterCalls k).lexer.next? = .error error) :
    ∃ before after, source = before ++ after ∧ error.position = Position.start.after before := by
  obtain ⟨d, hd, hposition⟩ := Lexer.reaches_of_error h
  obtain ⟨used, hused, hplace⟩ := ((Reader.reaches_afterCalls source systemId k).1.trans hd).split
  exact ⟨used, d.rest, hused, hposition.trans hplace⟩

private theorem hasLine_of_error {error : Malformed}
    (h : ((Reader.start source systemId).afterCalls k).lexer.next? = .error error) :
    HasLine source error.position.line := by
  obtain ⟨before, after, rfl, hposition⟩ := exists_place_of_error h
  have hline : error.position.line = 1 + before.count '\n' := by
    rw [hposition]
    exact Position.line_after _ before
  refine ⟨by omega, ?_⟩
  rw [List.count_append]
  omega

end Parts

/-! ### Errors -/

namespace Reader

/-- What a call fails for, with the texts that its report shows. -/
inductive Blames (r : Reader) (k : Nat) : ReadError → List (List Char) → Prop
  /-- The markup is malformed; there is no text that shows it. -/
  | malformed {error : Malformed} (hl : (r.afterCalls k).lexer.next? = .error error) :
    Blames r k (.malformed error) [[]]
  /-- A reference in one of the passages that the call reads. -/
  | reference {purpose : Purpose} {ps : List Passage} {p : Passage} {e : ReadError} {text : List Char}
    (htreats : r.Treats k purpose ps) (hp : p ∈ ps) (hfails : purpose.FailsAt (r.afterCalls k).entities p e text) :
    Blames r k e [text]
  /-- The first qualifier of a start tag that means nothing. -/
  | undefinedQualifier {before : List Token} {name : QName} {span : Span} {tag : List RawAttribute} {q : Passage}
    (hend : r.AtTagEnd k) (htag : r.tokensOfCalls k = before ++ .elementStart name span :: tag.map RawAttribute.token)
    (hfirst : FirstUndefined (r.tokensOfCalls k) (r.afterCalls k).entities name
      (tag.filter (!·.name.isDeclaration)) q) :
    Blames r k (.undefinedQualifier q) [q.chars]
  /-- The name of an entity that is declared without a value. -/
  | externalEntity {name : Passage} {lexer : Lexer}
    (hl : (r.afterCalls k).lexer.next? = .ok (some (.entity name none, lexer))) :
    Blames r k (.externalEntity name) [name.chars]
  /-- An end tag, all of it, and the beginning of the start tag of the innermost open element, which has another
  name. -/
  | mismatchedEndTag {opened closed : QName} {start tag : Span} {lexer : Lexer} {spelled spelled' gap : List Char}
    (hopen : IsInnermost (r.tokensOfCalls k) opened start)
    (hl : (r.afterCalls k).lexer.next? = .ok (some (.closeTag closed tag, lexer))) (hne : opened.sameAs closed = false)
    (hclosed : closed.ReadFrom ⟨tag.low + 2, spelled⟩) (hgap : ∀ c ∈ gap, isSpace c)
    (hopened : opened.ReadFrom ⟨start.low + 1, spelled'⟩) :
    Blames r k (.mismatchedEndTag start tag) ["</".toList ++ (spelled ++ gap ++ ['>']), '<' :: spelled']
  /-- The beginning of the start tag of the innermost element that is open where the text ends. -/
  | unclosedElement {opened : QName} {start : Span} {spelled : List Char}
    (hopen : IsInnermost (r.tokensOfCalls k) opened start) (hl : (r.afterCalls k).lexer.next? = .ok none)
    (hopened : opened.ReadFrom ⟨start.low + 1, spelled⟩) :
    Blames r k (.unclosedElement start) ['<' :: spelled]

section Calls

variable {source : List Char} {systemId : Option String} {k : Nat} {e : ReadError}

private theorem startElement_eq_error {r : Reader} {element : OpenElement} (h : r.startElement element = .error e) :
    (∃ q, e = .undefinedQualifier q) ∨
      ∃ a ∈ element.attributes, r.entities.expand .attributeValue a.value = .error e := by
  rcases bind_eq_error_iff.1 h with hname | ⟨uri, -, h⟩
  · exact .inl (exists_eq_undefinedQualifier_of_namespaceOf hname)
  · rcases bind_eq_error_iff.1 h with hall | ⟨attributes, -, hdone⟩
    · obtain ⟨before, a, after, hsplit, -, ha⟩ := mapM_eq_error_iff.1 hall
      exact (resolveAttribute_eq_error ha).imp_right fun hvalue => ⟨a, by simp [hsplit], hvalue⟩
    · simp [pure, Except.pure] at hdone

/-- What a call reads for a purpose is part of the document. -/
private theorem Treats.isPartOf {purpose : Purpose} {ps : List Passage} {p : Passage}
    (h : (start source systemId).Treats k purpose ps) (hp : p ∈ ps) : p.IsPartOf (.ofSource source) := by
  cases h with
  | text _ hl =>
    obtain rfl := List.mem_singleton.1 hp
    cases readFrom_of_next? hl with
    | text hpart => exact hpart
  | entityValue _ hl =>
    obtain rfl := List.mem_singleton.1 hp
    cases readFrom_of_next? hl with
    | entity _ hvalue => exact hvalue _ rfl
  | attributeValues _ htag =>
    obtain ⟨a, ha, rfl⟩ := List.mem_map.1 hp
    have hmem : a.token ∈ (start source systemId).tokensOfCalls k := by
      rw [htag]
      exact List.mem_append_right _ (List.mem_cons_of_mem _ (List.mem_map_of_mem (List.mem_filter.1 ha).1))
    cases readFrom_of_mem_tokensOfCalls hmem with
    | attr _ _ hvalue => exact hvalue

/-- A passage that cannot be read is to blame for the error. -/
private theorem Treats.exists_blames {purpose : Purpose} {ps : List Passage} {p : Passage} :
    let r := start source systemId
    r.Treats k purpose ps → p ∈ ps → purpose.read (r.afterCalls k).entities p = .error e →
      ∃ texts, r.Blames k e texts ∧ MarksCover source (e.marks source) texts := by
  intro r h hp he
  obtain ⟨text, hfails⟩ := Purpose.exists_failsAt_of_read he
  exact ⟨_, .reference h hp hfails, hfails.covers (h.isPartOf hp)⟩

private theorem AtTagEnd.exists_blames {t : Token} {lexer : Lexer} :
    let r := start source systemId
    r.AtTagEnd k → t = .openEnd ∨ t = .emptyEnd → takeToken { r.afterCalls k with lexer } t = .error e →
      ∃ texts, r.Blames k e texts ∧ MarksCover source (e.marks source) texts := by
  intro r hend ht htake
  obtain ⟨before, name, span, tag, outer, htag, ho, -, hscope⟩ := hend.exists_tag
  have hstart := takeToken_of_tagEnd (r := { r.afterCalls k with lexer }) ho ht
  cases hstarted : startElement { r.afterCalls k with lexer } (.ofTag name span tag) with
  | ok started =>
    rw [hstarted] at hstart
    obtain ⟨opened, closing, htake', -⟩ := hstart
    simp [htake] at htake'
  | error e' =>
    rw [hstarted] at hstart
    obtain rfl : e = e' := Except.error.inj (htake.symm.trans hstart)
    rcases startElement_eq_error hstarted with ⟨q, rfl⟩ | ⟨a, ha, hvalue⟩
    · have hfirst := (startElement_eq_error_iff (r := { r.afterCalls k with lexer }) hscope).1 hstarted
      rw [OpenElement.name_ofTag, OpenElement.attributes_ofTag] at hfirst
      have hpart := Passage.IsPartOf.of_firstUndefined htag hfirst
      exact ⟨_, .undefinedQualifier hend htag hfirst, .cons hpart.covers .nil⟩
    · rw [OpenElement.attributes_ofTag] at ha
      exact (Treats.attributeValues hend htag).exists_blames (List.mem_map_of_mem ha) hvalue

/-- An end tag is in the content of an element. It cannot be read only if it is not that of the innermost one. -/
private theorem exists_of_closeTag_eq_error {name : QName} {span : Span} {lexer : Lexer} :
    let r := start source systemId
    (r.afterCalls k).lexer.next? = .ok (some (.closeTag name span, lexer)) →
      takeToken { r.afterCalls k with lexer } (.closeTag name span) = .error e →
        ∃ element outer, (r.afterCalls k).opened = element :: outer ∧ element.name.sameAs name = false ∧
          e = .mismatchedEndTag element.span span := by
  intro r hl htake
  obtain ⟨names, hagree⟩ := exists_agree source systemId k
  obtain ⟨depth, hphase⟩ := (Lexer.goes_of_next? hl).exists_of_closeTag
  rw [hphase] at hagree
  obtain ⟨element, outer, uri, outerNames, ho, -, huri, -⟩ := hagree.exists_innermost
  rw [takeToken_closeTag (r := { r.afterCalls k with lexer }) ho huri] at htake
  split at htake
  · simp at htake
  · rename_i hsame
    exact ⟨element, outer, ho, eq_false_of_ne_true hsame, (Except.error.inj htake).symm⟩

/-- Every call that fails has something to blame, and its report shows it. -/
theorem exists_blames :
    let r := start source systemId
    (r.call k).2 = .failed e → ∃ texts, r.Blames k e texts ∧ MarksCover source (e.marks source) texts := by
  intro r h
  have hbefore := (stopsAt_of_failed h).before
  have hleads := leads_afterCalls hbefore
  rcases failure_cases h with ⟨malformed, hl, rfl⟩ | ⟨hl, element, outer, ho, rfl⟩ | ⟨t, lexer, hl, htake⟩
  · exact ⟨_, .malformed hl, .cons (LineTable.marks?_malformed (hasLine_of_error hl)).2 .nil⟩
  · rw [ho] at hleads
    obtain ⟨spelled, hname, hcovers⟩ := hleads.isInnermost.exists_spelled
    exact ⟨_, .unclosedElement hleads.isInnermost hl hname, .cons hcovers .nil⟩
  · cases t with
    | aside | elementStart | cdata => simp [takeToken] at htake
    | «attribute» =>
      simp only [takeToken] at htake
      split at htake <;> simp at htake
    | entity name value =>
      cases value with
      | none =>
        obtain rfl := Except.error.inj htake
        cases readFrom_of_next? hl with
        | entity hname => exact ⟨_, .externalEntity hl, .cons hname.covers .nil⟩
      | some value =>
        rcases bind_eq_error_iff.1 htake with hvalue | ⟨text, -, hdone⟩
        · exact (Treats.entityValue hbefore hl).exists_blames (by simp) hvalue
        · simp [pure, Except.pure] at hdone
    | text content =>
      rcases bind_eq_error_iff.1 htake with hvalue | ⟨text, -, hdone⟩
      · exact (Treats.text hbefore hl).exists_blames (by simp) hvalue
      · simp [pure, Except.pure] at hdone
    | openEnd => exact AtTagEnd.exists_blames ⟨hbefore, _, lexer, hl, .inl rfl⟩ (.inl rfl) htake
    | emptyEnd => exact AtTagEnd.exists_blames ⟨hbefore, _, lexer, hl, .inr rfl⟩ (.inr rfl) htake
    | closeTag closed tag =>
      obtain ⟨element, outer, ho, hne, rfl⟩ := exists_of_closeTag_eq_error hl htake
      rw [ho] at hleads
      obtain ⟨spelled, hopened, hstart⟩ := hleads.isInnermost.exists_spelled
      have hread := readFrom_of_next? hl
      generalize htoken : Token.closeTag closed tag = t at hread
      cases hread with
      | @closeTag o spelled' gap name hpart hname hgap =>
        obtain ⟨rfl, rfl⟩ := Token.closeTag.inj htoken
        have hblames := Blames.mismatchedEndTag hleads.isInnermost hl hne hname hgap hopened
        exact ⟨_, hblames, .cons hpart.covers (.cons hstart .nil)⟩
      | _ => simp at htoken

/-- Whatever a call fails for, every stretch of the report can be cut out of the document. The first one is what the
message is about, and the texts of the stretches are those that the call is to blame for: a qualifier or the name of an
entity, what is wrong with a reference, an end tag and the beginning of the start tag that it does not match, or the
beginning of the innermost start tag that has no end. -/
theorem marks_of_failed (source : List Char) (systemId : Option String) {k : Nat} {e : ReadError} :
    let r := start source systemId
    (r.call k).2 = .failed e →
      (LineTable.ofSource source).marks? e = some (e.marks source) ∧
      (∃ first others, e.marks source = first :: others ∧ first.primary = true ∧
        ∀ mark ∈ others, mark.primary = false) ∧
      ∃ texts, r.Blames k e texts ∧
        List.Forall₂ (fun mark text => mark.span.Covers source text) (e.marks source) texts := by
  intro r h
  obtain ⟨texts, hblames, hcovers⟩ := exists_blames h
  refine ⟨?_, ?_, texts, hblames, hcovers⟩
  · have hwithin : ∀ mark ∈ e.marks source, ∃ text, mark.span.Covers source text := by
      intro mark hmark
      obtain ⟨text, -, hcovered⟩ := exists_of_mem_forall₂ hcovers hmark
      exact ⟨text, hcovered⟩
    cases e with
    | malformed error =>
      cases hblames with
      | malformed hl => exact (LineTable.marks?_malformed (hasLine_of_error hl)).1
      | reference _ _ hfails => cases hfails
    | _ => exact LineTable.mapM_part?_of_covers hwithin
  · cases e <;> exact ⟨_, _, rfl, rfl, by simp⟩

/-- The third reference of a text is that of an unknown entity. The document starts with a byte order mark. -/
theorem marks_of_failed_thirdReference :
    let source := "\uFEFF<é>&lt;&#65;&no;</é>".toList
    let r := start source none
    let e : ReadError := .undefinedEntity ⟨17, "no".toList⟩
    (r.call 2).2 = .failed e ∧
      (LineTable.ofSource source).marks? e = some [{ span := ⟨17, 19⟩, label := "undefined" }] := by
  intro source r e
  have hfailed : (r.call 2).2 = .failed e := by decide +kernel
  exact ⟨hfailed, (marks_of_failed source none hfailed).1⟩

/-- The end tag of the outer element stands in the inner one. -/
example :
    let source := "<é><b></é >".toList
    (((start source none).error?.bind (LineTable.ofSource source).marks?).map fun marks => marks.map (·.span)) =
      some [⟨7, 13⟩, ⟨4, 6⟩] := by
  decide +kernel

end Calls

end Reader

end Xml

end MapMarkup
