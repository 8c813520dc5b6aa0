import MapMarkup.Proofs.Documents
import MapMarkup.Proofs.Expansion
import MapMarkup.Proofs.Lexing

/-!
# Readers of texts that go on differently

Two readers that have read alike so far read on alike, token by token, as long as the texts ahead do. What they keep and
what they say agrees up to places and up to namespaces, where `B` tells which namespaces stand for each other; of an
attribute value it only matters to what it expands.
-/

namespace MapMarkup

/-- The attributes agree up to namespaces. -/
structure Attribute.Alike (B : String → String → Prop) (a b : Attribute) : Prop where
  uri : B a.uri b.uri
  name : a.name = b.name
  value : a.value = b.value
  isId : a.uri = b.uri → a.isId = b.isId

/-- The events agree up to their places and up to namespaces. -/
inductive Event.Alike (B : String → String → Prop) : Event → Event → Prop
  | startDocument : Alike B .startDocument .startDocument
  | endDocument : Alike B .endDocument .endDocument
  | reset : Alike B .reset .reset
  | startElement (l l' : Locator) {uri uri' : String} (huri : B uri uri') (name : String)
    {attributes attributes' : Attributes} (hattributes : List.Forall₂ (Attribute.Alike B) attributes attributes') :
    Alike B (.startElement l uri name attributes) (.startElement l' uri' name attributes')
  | endElement (l l' : Locator) {uri uri' : String} (huri : B uri uri') (name : String) :
    Alike B (.endElement l uri name) (.endElement l' uri' name)
  | characters (text : String) : Alike B (.characters text) (.characters text)
  | sourceIsCss (value : Bool) : Alike B (.sourceIsCss value) (.sourceIsCss value)

/-- The event without its place. -/
def Event.unplaced : Event → Event
  | startElement _ uri name attributes => startElement ⟨0, 0, none, none⟩ uri name attributes
  | endElement _ uri name => endElement ⟨0, 0, none, none⟩ uri name
  | e => e

/-- The namespaces that an event names. -/
def Event.namespaces : Event → List String
  | startElement _ uri _ attributes => uri :: attributes.map Attribute.uri
  | endElement _ uri _ => [uri]
  | startDocument | endDocument | reset | characters _ | sourceIsCss _ => []

section Renaming

variable {B : String → String → Prop}

theorem Attribute.Alike.eq {a b : Attribute} (h : a.Alike B b) (hB : ∀ u, B a.uri u → u = a.uri) : b = a := by
  obtain ⟨uri, name, value, isId⟩ := a
  obtain ⟨uri', name', value', isId'⟩ := b
  have huri : uri' = uri := hB _ h.uri
  rw [Attribute.mk.injEq]
  exact ⟨huri, h.name.symm, h.value.symm, (h.isId huri.symm).symm⟩

private theorem attributes_eq_of_alike {attributes attributes' : Attributes}
    (h : List.Forall₂ (Attribute.Alike B) attributes attributes')
    (hB : ∀ a ∈ attributes, ∀ u, B a.uri u → u = a.uri) : attributes' = attributes := by
  induction h with
  | nil => rfl
  | cons ha _ ih =>
    obtain ⟨hfirst, hothers⟩ := List.forall_mem_cons.1 hB
    rw [ha.eq hfirst, ih hothers]

private theorem Event.Alike.unplaced_eq {e e' : Event} (h : e.Alike B e')
    (hB : ∀ u ∈ e.namespaces, ∀ u', B u u' → u' = u) :
    e'.unplaced = e.unplaced := by
  cases h with
  | startElement l l' huri name hattributes =>
    obtain ⟨hfirst, hothers⟩ := List.forall_mem_cons.1 hB
    rw [hfirst _ huri, attributes_eq_of_alike hattributes fun a ha => hothers a.uri (List.mem_map_of_mem ha)]
    rfl
  | endElement l l' huri name =>
    rw [hB _ List.mem_cons_self _ huri]
    rfl
  | _ => rfl

/-- Events are the same up to their places if none of the namespaces that they name is renamed. -/
theorem map_unplaced_eq {events events' : List Event} (h : List.Forall₂ (Event.Alike B) events events')
    (hB : ∀ e ∈ events, ∀ u ∈ e.namespaces, ∀ u', B u u' → u' = u) :
    events'.map Event.unplaced = events.map Event.unplaced := by
  induction h with
  | nil => rfl
  | cons he _ ih =>
    obtain ⟨hfirst, hothers⟩ := List.forall_mem_cons.1 hB
    rw [List.map_cons, List.map_cons, he.unplaced_eq hfirst, ih hothers]

end Renaming

namespace Xml

/-- The attributes have the same name, and the value of the second one expands to whatever that of the first one
does. -/
structure RawAttribute.Alike (a b : RawAttribute) : Prop where
  name : a.name.Alike b.name
  value : ∀ (entities : Entities) (text : List Char),
    entities.Expands a.value.chars text → entities.Expands b.value.chars text

/-- The qualifiers are declared to stand for namespaces that stand for each other. -/
def BindingAlike (B : String → String → Prop) (b b' : List Char × List Char) : Prop :=
  b.1 = b'.1 ∧ B (.ofList b.2) (.ofList b'.2)

structure OpenElement.Alike (B : String → String → Prop) (e e' : OpenElement) : Prop where
  name : e.name.Alike e'.name
  bindings : List.Forall₂ (BindingAlike B) e.bindings e'.bindings
  attributes : List.Forall₂ RawAttribute.Alike e.attributes e'.attributes

abbrev OpenElements.Alike (B : String → String → Prop) (opened opened' : OpenElements) : Prop :=
  List.Forall₂ (OpenElement.Alike B) opened opened'

variable {B : String → String → Prop}

/-! ### Namespaces -/

private theorem rel_lookup {bs bs' : List (List Char × List Char)} (h : List.Forall₂ (BindingAlike B) bs bs')
    (q : List Char) :
    Option.Rel (fun u u' => B (.ofList u) (.ofList u')) (List.lookup q bs) (List.lookup q bs') := by
  induction h with
  | nil => exact .none
  | @cons b b' bs bs' hb _ ih =>
    obtain ⟨name, u⟩ := b
    obtain ⟨name', u'⟩ := b'
    obtain ⟨rfl, hB⟩ : name = name' ∧ _ := hb
    rw [List.lookup_cons, List.lookup_cons]
    split
    · exact .some hB
    · exact ih

namespace OpenElements.Alike

variable {opened opened' : OpenElements} (h : opened.Alike B opened') (hB : ∀ u, B u u)

include h

private theorem eq_nil (ho : opened = []) : opened' = [] := by
  rw [ho] at h
  exact List.forall₂_nil_left_iff.1 h

private theorem exists_cons {e : OpenElement} {outer : OpenElements} (ho : opened = e :: outer) :
    ∃ e' outer', e.Alike B e' ∧ OpenElements.Alike B outer outer' ∧ opened' = e' :: outer' := by
  rw [ho] at h
  exact List.forall₂_cons_left_iff.1 h

private theorem rel_binding? (q : List Char) :
    Option.Rel (fun u u' => B (.ofList u) (.ofList u')) (opened.binding? q) (opened'.binding? q) := by
  unfold binding?
  induction h with
  | nil => exact .none
  | cons he _ ih =>
    -- Elements that are alike declare the same qualifiers, so the search stops at the same element.
    have hlookup := rel_lookup he.bindings q
    rw [List.findSome?_cons, List.findSome?_cons]
    generalize List.lookup q _ = u at hlookup
    generalize List.lookup q _ = u' at hlookup
    cases hlookup with
    | none => exact ih
    | some hB => exact .some hB

include hB

private theorem exists_namespaceOf {p q : Passage} (hpq : p.Alike q) {u : List Char}
    (hu : opened.namespaceOf p = .ok u) :
    ∃ u', opened'.namespaceOf q = .ok u' ∧ B (.ofList u) (.ofList u') := by
  have hrel := h.rel_binding? p.chars
  unfold namespaceOf at hu ⊢
  rw [← show p.chars = q.chars from hpq]
  split at hu
  · rename_i hempty
    rw [if_pos hempty]
    obtain rfl := Except.ok.inj hu
    refine ⟨_, rfl, ?_⟩
    rw [hempty] at hrel
    generalize opened.binding? [] = u at hrel
    generalize opened'.binding? [] = u' at hrel
    cases hrel with
    | none => exact hB _
    | some huu' => exact huu'
  · rename_i hempty
    rw [if_neg hempty]
    split at hu
    · rename_i hxml
      rw [if_pos hxml]
      exact ⟨u, hu, hB _⟩
    · rename_i hxml
      rw [if_neg hxml]
      generalize opened.binding? p.chars = v at hrel hu
      generalize opened'.binding? p.chars = v' at hrel
      cases hrel with
      | none => simp at hu
      | some huu' =>
        obtain rfl := Except.ok.inj hu
        exact ⟨_, rfl, huu'⟩

private theorem exists_namespaceOfAttribute {p q : Passage} (hpq : p.Alike q) {u : List Char}
    (hu : opened.namespaceOfAttribute p = .ok u) :
    ∃ u', opened'.namespaceOfAttribute q = .ok u' ∧ B (.ofList u) (.ofList u') := by
  unfold namespaceOfAttribute at hu ⊢
  rw [← show p.chars = q.chars from hpq]
  split at hu
  · rename_i hempty
    rw [if_pos hempty]
    exact ⟨u, hu, hB _⟩
  · rename_i hempty
    rw [if_neg hempty]
    exact h.exists_namespaceOf hB hpq hu

end OpenElements.Alike

private theorem QName.Alike.sameAs_eq {m n m' n' : QName} (h : m.Alike m') (h' : n.Alike n') :
    m'.sameAs n' = m.sameAs n := by
  obtain ⟨hqualifier, hbase⟩ := h
  obtain ⟨hqualifier', hbase'⟩ := h'
  unfold Passage.Alike at hqualifier hbase hqualifier' hbase'
  simp only [QName.sameAs, hqualifier, hbase, hqualifier', hbase']

/-! ### Start tags -/

/-- Whether an attribute of this name declares what a qualifier, or no qualifier, stands for. -/
def QName.isDeclaration (n : QName) : Bool :=
  n.qualifier.chars = "xmlns".toList || n.qualifier.chars = [] && n.base.chars = "xmlns".toList

private theorem OpenElement.Alike.addAttribute {e e' : OpenElement} (he : e.Alike B e') {m n : QName}
    (hname : m.Alike n)
    {p q : Passage} (hvalue : RawAttribute.Alike ⟨m, p⟩ ⟨n, q⟩)
    (hdeclared : m.isDeclaration → B (.ofList p.chars) (.ofList q.chars)) :
    (e.addAttribute m p).Alike B (e'.addAttribute n q) := by
  have hqualifier : n.qualifier.chars = m.qualifier.chars := Eq.symm hname.qualifier
  have hbase : n.base.chars = m.base.chars := Eq.symm hname.base
  have hbound : ∀ declared, m.isDeclaration →
      List.Forall₂ (BindingAlike B) (e.bindings ++ [(declared, p.chars)]) (e'.bindings ++ [(declared, q.chars)]) :=
    fun declared hm => List.rel_append he.bindings (.cons ⟨rfl, hdeclared hm⟩ .nil)
  unfold OpenElement.addAttribute
  rw [hqualifier, hbase]
  split
  · rename_i hxmlns
    exact ⟨he.name, hbound _ (by simp [QName.isDeclaration, hxmlns]), he.attributes⟩
  · split
    · rename_i hxmlns
      exact ⟨he.name, hbound _ (by simp_all [QName.isDeclaration]), he.attributes⟩
    · exact ⟨he.name, he.bindings, List.rel_append he.attributes (.cons hvalue .nil)⟩

/-! ### One token -/

namespace Reader

/-- The readers have read alike so far: the texts ahead are the same up to `U` and `V`, and what the readers keep agrees
up to places and namespaces. -/
structure Alike (r : Reader) (B : String → String → Prop) (U V : List Char) (r' : Reader) : Prop where
  phase : r'.lexer.phase = r.lexer.phase
  cursor : Cursor.Diverge U V r.lexer.cursor r'.lexer.cursor
  opened : r.opened.Alike B r'.opened
  entities : r'.entities = r.entities
  stage : r'.stage = r.stage

section Tokens

variable {r r' : Reader} (hopened : r.opened.Alike B r'.opened) (hentities : r'.entities = r.entities)
  (hB : ∀ u, B u u)

include hopened hentities hB

private theorem exists_resolveAttribute {a a' : RawAttribute} (ha : a.Alike a') {x : Attribute}
    (hx : r.resolveAttribute a = .ok x) : ∃ x', r'.resolveAttribute a' = .ok x' ∧ x.Alike B x' := by
  obtain ⟨uri, huri, hx⟩ := exists_of_bind_eq_ok hx
  obtain ⟨value, hvalue, hx⟩ := exists_of_bind_eq_ok hx
  obtain rfl := Except.ok.inj hx
  obtain ⟨uri', huri', hB'⟩ := hopened.exists_namespaceOfAttribute hB ha.name.qualifier huri
  have hvalue' : r'.entities.expand .attributeValue a'.value = .ok value := by
    rw [hentities]
    exact Entities.expands_iff.1 (ha.value _ _ (Entities.expands_iff.2 hvalue))
  have hbase : a'.name.base.chars = a.name.base.chars := Eq.symm ha.name.base
  refine ⟨⟨.ofList uri', .ofList a'.name.base.chars, .ofList value,
    uri' = xmlNamespace && a'.name.base.chars = "id".toList⟩, ?_, hB', by rw [hbase], rfl, ?_⟩
  · simp only [resolveAttribute, huri', hvalue', bind, Except.bind, pure, Except.pure]
  -- Of two namespaces that stand for each other, only one may be that of `xml`.
  · intro heq
    have huris : uri = uri' := String.ofList_injective heq
    simp only [hbase, huris]

private theorem exists_startElement {e e' : OpenElement} (he : e.Alike B e') {uri name : String} {event : Event}
    (hs : r.startElement e = .ok (uri, name, event)) :
    ∃ uri' event', r'.startElement e' = .ok (uri', name, event') ∧ B uri uri' ∧ event.Alike B event' := by
  obtain ⟨cs, attributes, hcs, hattributes, rfl, rfl, rfl⟩ := startElement_eq_ok hs
  obtain ⟨cs', hcs', hB'⟩ := hopened.exists_namespaceOf hB he.name.qualifier hcs
  obtain ⟨attributes', hattributes', hresolved⟩ : ∃ attributes',
      e'.attributes.mapM r'.resolveAttribute = .ok attributes' ∧ List.Forall₂ (Attribute.Alike B) attributes attributes' :=
    exists_mapM_eq_ok (he.attributes.imp fun a a' ha x hx => exists_resolveAttribute hopened hentities hB ha hx)
      hattributes
  have hbase : e'.name.base.chars = e.name.base.chars := Eq.symm he.name.base
  refine ⟨.ofList cs', .startElement r'.locator (.ofList cs') (.ofList e.name.base.chars) attributes', ?_, hB',
    .startElement _ _ hB' _ hresolved⟩
  simp only [startElement, hcs', hattributes', hbase, bind, Except.bind, pure, Except.pure]

omit hB in
theorem exists_takeToken_of_attr {m n : QName} {p q : Passage} (hname : m.Alike n)
    (hvalue : RawAttribute.Alike ⟨m, p⟩ ⟨n, q⟩) (hdeclared : m.isDeclaration → B (.ofList p.chars) (.ofList q.chars))
    {opened : OpenElements} {entities : Entities} {events : List Event}
    (h : r.takeToken (.attribute m p) = .ok (opened, entities, events)) :
    ∃ opened' events', r'.takeToken (.attribute n q) = .ok (opened', entities, events') ∧ opened.Alike B opened' ∧
      List.Forall₂ (Event.Alike B) events events' := by
  cases takes_of_takeToken h with
  | strayAttr ho =>
    have ho' := hopened.eq_nil ho
    exact ⟨[], [], by simp only [takeToken, ho', hentities], .nil, .nil⟩
  | attr ho =>
    obtain ⟨e', outer', he, houter, ho'⟩ := hopened.exists_cons ho
    exact ⟨_, [], by simp only [takeToken, ho', hentities], .cons (he.addAttribute hname hvalue hdeclared) houter, .nil⟩

/-- Tokens that read the same have the same effect. -/
private theorem exists_takeToken {t t' : Token} (ht : t.Alike t') {opened : OpenElements} {entities : Entities}
    {events : List Event} (h : r.takeToken t = .ok (opened, entities, events)) :
    ∃ opened' events', r'.takeToken t' = .ok (opened', entities, events') ∧ opened.Alike B opened' ∧
      List.Forall₂ (Event.Alike B) events events' := by
  have htakes := takes_of_takeToken h
  cases ht with
  | aside =>
    cases htakes with
    | aside => exact ⟨_, _, by rw [takeToken, hentities], hopened, .nil⟩
  | externalEntity => cases htakes
  | entity hname hvalue =>
    cases htakes with
    | entity _ hcs =>
      have hcs' := replacementText_eq_ok_of_chars hvalue hcs
      refine ⟨r'.opened, [], ?_, hopened, .nil⟩
      rw [hname, ← hentities]
      simp only [takeToken, hcs', bind, Except.bind, pure, Except.pure]
  | elementStart hname s t =>
    cases htakes with
    | elementStart =>
      exact ⟨_, _, by rw [takeToken, hentities], .cons ⟨hname, .nil, .nil⟩ hopened, .nil⟩
  | attr hname hvalue =>
    refine exists_takeToken_of_attr hopened hentities hname ⟨hname, fun _ _ hexpands => ?_⟩ (fun _ => ?_) h
    · rw [← hvalue]
      exact hexpands
    · rw [hvalue]
      exact hB _
  | openEnd =>
    cases htakes with
    | strayOpenEnd ho =>
      have ho' := hopened.eq_nil ho
      refine ⟨[], [.startElement r'.locator "" "" []], by simp only [takeToken, ho', hentities], .nil, ?_⟩
      exact .cons (.startElement _ _ (hB "") "" .nil) .nil
    | openEnd ho hs =>
      obtain ⟨e', outer', he, houter, ho'⟩ := hopened.exists_cons ho
      obtain ⟨uri', event', hs', -, hevent⟩ := exists_startElement hopened hentities hB he hs
      refine ⟨e' :: outer', [event'], ?_, .cons he houter, .cons hevent .nil⟩
      simp only [takeToken, ho', hs', hentities, bind, Except.bind, pure, Except.pure]
  | emptyEnd =>
    cases htakes with
    | strayEmptyEnd ho =>
      have ho' := hopened.eq_nil ho
      refine ⟨[], [.startElement r'.locator "" "" [], .endElement r'.locator "" ""],
        by simp only [takeToken, ho', hentities], .nil, ?_⟩
      exact .cons (.startElement _ _ (hB "") "" .nil) (.cons (.endElement _ _ (hB "") "") .nil)
    | emptyEnd ho hs =>
      obtain ⟨e', outer', he, houter, ho'⟩ := hopened.exists_cons ho
      obtain ⟨uri', event', hs', huri, hevent⟩ := exists_startElement hopened hentities hB he hs
      have hend := fun name => Event.Alike.endElement r.locator r'.locator huri name
      refine ⟨outer', [event', .endElement r'.locator uri' _], ?_, houter, .cons hevent (.cons (hend _) .nil)⟩
      simp only [takeToken, ho', hs', hentities, bind, Except.bind, pure, Except.pure]
  | closeTag hname s t =>
    cases htakes with
    | closeTag _ ho hsame huri =>
      obtain ⟨e', outer', he, houter, ho'⟩ := hopened.exists_cons ho
      obtain ⟨uri', huri', hB'⟩ := hopened.exists_namespaceOf hB he.name.qualifier huri
      have hsame' := (he.name.sameAs_eq hname).trans hsame
      rw [ho'] at huri'
      rw [hname.base]
      refine ⟨outer', _, ?_, houter, .cons (.endElement _ r'.locator hB' _) .nil⟩
      simp only [takeToken, ho', hsame', huri', hentities, ↓reduceIte, bind, Except.bind, pure, Except.pure]
  | text hp =>
    cases htakes with
    | text hcs =>
      have hcs' := Entities.expand_eq_ok_of_chars hp hcs
      refine ⟨r'.opened, _, ?_, hopened, .cons (.characters _) .nil⟩
      simp only [takeToken, hentities, hcs', bind, Except.bind, pure, Except.pure]
  | cdata hp =>
    cases htakes with
    | cdata =>
      rw [hp]
      exact ⟨_, _, by rw [takeToken, hentities], hopened, .cons (.characters _) .nil⟩

end Tokens

/-! ### Calls -/

section Calls

variable {r r' : Reader} {U V : List Char}

theorem atEnd_of_advance (hs : r.stage ≠ .finished) (h : r.advance.2.2 = .finished) :
    r.lexer.next? = .ok none ∧ r.opened = [] := by
  rw [advance_eq hs] at h
  split at h
  · simp at h
  · rename_i hl
    split at h
    · rename_i ho
      exact ⟨hl, ho⟩
    · simp at h
  · split at h <;> simp at h

private theorem forall₂_opening (h : r'.stage = r.stage) : List.Forall₂ (Event.Alike B) r.opening r'.opening := by
  unfold opening
  rw [h]
  split
  · exact .cons .startDocument .nil
  · exact .nil

/-- Two calls that read tokens with like effects. -/
theorem alike_of_token {t t' : Token} {lexer lexer' : Lexer} {opened opened' : OpenElements} {entities : Entities}
    {events events' : List Event} (hs : r.stage ≠ .finished) (hstage : r'.stage = r.stage)
    (hl : r.lexer.next? = .ok (some (t, lexer))) (hl' : r'.lexer.next? = .ok (some (t', lexer')))
    (ht : takeToken { r with lexer } t = .ok (opened, entities, events))
    (ht' : takeToken { r' with lexer := lexer' } t' = .ok (opened', entities, events'))
    (hopened : opened.Alike B opened') (hevents : List.Forall₂ (Event.Alike B) events events')
    (hphase : lexer'.phase = lexer.phase) (hcursor : Cursor.Diverge U V lexer.cursor lexer'.cursor) :
    r'.advance.2.2 = .token ∧ List.Forall₂ (Event.Alike B) r.advance.2.1 r'.advance.2.1 ∧
      r.advance.1.Alike B U V r'.advance.1 := by
  rw [advance_of_token hs hl ht, advance_of_token (hstage ▸ hs) hl' ht']
  exact ⟨rfl, List.rel_append (forall₂_opening hstage) hevents, hphase, hcursor, hopened, rfl, rfl⟩

/-- A call that reads a token and stops in front of `U`. -/
theorem Alike.advance (h : r.Alike B U V r') (hB : ∀ u, B u u) (hstart : SameStart U V)
    (htoken : r.advance.2.2 = .token) {a : List Char} (hleft : r.advance.1.lexer.cursor.rest = a ++ U) :
    r'.advance.2.2 = .token ∧ List.Forall₂ (Event.Alike B) r.advance.2.1 r'.advance.2.1 ∧
      r.advance.1.Alike B U V r'.advance.1 := by
  have hs : r.stage ≠ .finished := fun hs => by simp [advance_of_finished hs] at htoken
  obtain ⟨t, lexer, opened, entities, events, -, hl, ht, -, hafter⟩ := exists_of_call_token (k := 0) htoken
  have hleft : lexer.cursor.rest = a ++ U := (congrArg (·.lexer.cursor.rest) hafter).symm.trans hleft
  obtain ⟨t', lexer', hl', halike, hphase, hleft'⟩ :=
    (Lexer.matches_next? hstart h.phase h.cursor).token t lexer a hl hleft
  have hbefore : ({ r with lexer } : Reader).opened.Alike B ({ r' with lexer := lexer' } : Reader).opened := h.opened
  obtain ⟨opened', events', ht', hopened, hevents⟩ := exists_takeToken hbefore h.entities hB halike ht
  exact alike_of_token hs h.stage hl hl' ht ht' hopened hevents hphase ⟨a, hleft, hleft'⟩

/-- The call that comes to the end of the document. -/
private theorem Alike.advance_of_finished (h : r.Alike B [] [] r') (hfinished : r.advance.2.2 = .finished) :
    r'.advance.2.2 = .finished ∧ List.Forall₂ (Event.Alike B) r.advance.2.1 r'.advance.2.1 := by
  by_cases hs : r.stage = .finished
  · rw [Reader.advance_of_finished hs, Reader.advance_of_finished (h.stage.trans hs)]
    exact ⟨rfl, .nil⟩
  · obtain ⟨hl, ho⟩ := atEnd_of_advance hs hfinished
    have hl' := (Lexer.matches_next? .nil h.phase h.cursor).atEnd rfl hl
    rw [advance_of_atEnd hs hl ho, advance_of_atEnd (h.stage ▸ hs) hl' (h.opened.eq_nil ho)]
    exact ⟨rfl, List.rel_append (forall₂_opening h.stage) (.cons .endDocument .nil)⟩

/-- The calls of the second reader have gone as those of the first one, `n` times. -/
structure Follows (r : Reader) (B : String → String → Prop) (n : Nat) (r' : Reader) : Prop where
  tokens : ∀ k < n, (r'.call k).2 = .token
  events : List.Forall₂ (Event.Alike B) (r.eventsOfCalls n) (r'.eventsOfCalls n)

theorem Follows.zero : r.Follows B 0 r' :=
  ⟨by simp, .nil⟩

theorem Follows.succ {n : Nat} (h : r.Follows B n r') (htoken : (r'.call n).2 = .token)
    (hevents : List.Forall₂ (Event.Alike B) (r.call n).1 (r'.call n).1) : r.Follows B (n + 1) r' where
  tokens k hk := by
    rcases Nat.lt_succ_iff_lt_or_eq.1 hk with hlt | rfl
    · exact h.tokens k hlt
    · exact htoken
  events := List.rel_append h.events hevents

/-- Readers that have read alike do so as long as the texts ahead are the same. -/
theorem Follows.to {n m : Nat} (hnm : n ≤ m) (hfollows : r.Follows B n r')
    (halike : (r.afterCalls n).Alike B U V (r'.afterCalls n)) (hB : ∀ u, B u u) (hstart : SameStart U V)
    (htokens : ∀ k < m, (r.call k).2 = .token) {a : List Char} (hleft : (r.afterCalls m).lexer.cursor.rest = a ++ U) :
    r.Follows B m r' ∧ (r.afterCalls m).Alike B U V (r'.afterCalls m) := by
  induction hnm generalizing a with
  | refl => exact ⟨hfollows, halike⟩
  | @step m _ ih =>
    have htoken : (r.afterCalls m).advance.2.2 = .token := htokens m (Nat.lt_succ_self m)
    obtain ⟨t, lexer, opened, entities, events, -, hl, -, -, hafter⟩ := exists_of_call_token htoken
    -- If the text ahead ends in `U` after the last call, then it does so before.
    obtain ⟨used, hused, -⟩ := (Lexer.reaches_of_next? hl).split
    have hbetween : (r.afterCalls m).lexer.cursor.rest = (used ++ a) ++ U := by
      rw [hafter] at hleft
      rw [hused, hleft, List.append_assoc]
    obtain ⟨hfollows, halike⟩ := ih (fun k hk => htokens k (Nat.lt_succ_of_lt hk)) hbetween
    obtain ⟨htoken', hevents, halike⟩ := halike.advance hB hstart htoken hleft
    exact ⟨hfollows.succ htoken' hevents, halike⟩

/-- A reader that follows another one to the end of its document comes to the end too. -/
theorem Follows.events_of_finished {n : Nat} (hfollows : r.Follows B n r')
    (halike : (r.afterCalls n).Alike B [] [] (r'.afterCalls n)) (hstops : r.StopsAt n .finished) :
    r'.error? = none ∧ List.Forall₂ (Event.Alike B) r.events r'.events := by
  obtain ⟨hfinished, hevents⟩ := halike.advance_of_finished hstops.here
  have hstops' : r'.StopsAt n .finished := stopsAt_of_ne_token hfollows.tokens hfinished (by simp)
  rw [error?_eq hstops' (by simp), events_eq hstops (by simp), events_eq hstops' (by simp)]
  exact ⟨rfl, List.rel_append hfollows.events hevents⟩

end Calls

end Reader

end Xml

end MapMarkup
