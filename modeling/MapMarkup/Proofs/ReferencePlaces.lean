import MapMarkup.Proofs.Respelling
import MapMarkup.Proofs.RootElement
import MapMarkup.Proofs.Scopes
import MapMarkup.Proofs.Substitution

/-!
# Where references are replaced

References may stand in text, in the values of attributes other than declarations, and in the values of entities. A text
and the value of an entity are read by the call that gets their token. The values of a start tag are read one after the
other by the call that comes to the end of the tag (`Reader.Treats`). A value that cannot be read makes the call fail, at
this value or at something in front of it (`Reader.Treats.call_of_error`), and a call that does not fail hands on what
all of the values have become (`Reader.Treats.exists_texts`). In a document that is read without an error no passage
is left out (`Reader.exists_treats`).
-/

namespace MapMarkup

/-- The texts that an event hands on, in which references have been replaced. -/
def Event.texts : Event → List String
  | characters text => [text]
  | startElement _ _ _ attributes => attributes.map (·.value)
  | startDocument | endDocument | reset | endElement .. | sourceIsCss _ => []

namespace Xml

/-- What a passage with references is read as. -/
inductive Purpose where
  | text
  | attributeValue
  | entityValue
deriving DecidableEq, Repr

namespace Purpose

/-- What a passage becomes. -/
def read (entities : Entities) : Purpose → Passage → Except ReadError (List Char)
  | text => entities.expand .content
  | attributeValue => entities.expand .attributeValue
  | entityValue => replacementText

/-- What the parts of a passage are replaced by. -/
def substitution (entities : Entities) : Purpose → Substitution
  | text => .expansion entities .content
  | attributeValue => .expansion entities .attributeValue
  | entityValue => .replacement

theorem read_eq_apply (entities : Entities) (purpose : Purpose) (p : Passage) :
    purpose.read entities p = (purpose.substitution entities).apply p := by
  cases purpose with
  | text => exact Substitution.expand_eq_apply entities .content p
  | attributeValue => exact Substitution.expand_eq_apply entities .attributeValue p
  | entityValue => exact Substitution.replacementText_eq_apply p

end Purpose

/-- The passage of a token that may hold references, and what it is read as. -/
def Token.passage? : Token → Option (Purpose × Passage)
  | text content => some (.text, content)
  | .attribute name value => if name.isDeclaration then none else some (.attributeValue, value)
  | entity _ (some value) => some (.entityValue, value)
  | aside | entity _ none | elementStart _ _ | openEnd | emptyEnd | closeTag _ _ | cdata _ => none

/-- The values of the attributes of a start tag that are not declarations. -/
def ordinaryValues (tag : List RawAttribute) : List Passage :=
  (tag.filter (!·.name.isDeclaration)).map (·.value)

private theorem RawAttribute.token_injective : Function.Injective token := by
  rintro ⟨name, value⟩ ⟨name', value'⟩ h
  obtain ⟨rfl, rfl⟩ := Token.attribute.inj h
  rfl

private theorem RawAttribute.elementStart_not_mem (name : QName) (span : Span) (tag : List RawAttribute) :
    .elementStart name span ∉ tag.map token := by
  simp [token]

/-- A list of tokens ends in at most one way in the start of an element and its attributes. -/
private theorem tag_unique {before before' : List Token} {name name' : QName} {span span' : Span}
    {tag tag' : List RawAttribute}
    (h : before ++ .elementStart name span :: tag.map RawAttribute.token =
      before' ++ .elementStart name' span' :: tag'.map RawAttribute.token) :
    name = name' ∧ span = span' ∧ tag = tag' := by
  have hmap : Function.Injective (List.map RawAttribute.token) := List.map_injective_iff.2 RawAttribute.token_injective
  rcases List.append_eq_append_iff.1 h with ⟨front, -, hfront⟩ | ⟨front, -, hfront⟩
  · rcases front with _ | ⟨t, front⟩
    · obtain ⟨hstart, htag⟩ := List.cons.inj hfront
      obtain ⟨rfl, rfl⟩ := Token.elementStart.inj hstart
      exact ⟨rfl, rfl, hmap htag⟩
    · exact absurd (by rw [(List.cons.inj hfront).2]; simp) (RawAttribute.elementStart_not_mem name' span' tag)
  · rcases front with _ | ⟨t, front⟩
    · obtain ⟨hstart, htag⟩ := List.cons.inj hfront
      obtain ⟨rfl, rfl⟩ := Token.elementStart.inj hstart
      exact ⟨rfl, rfl, (hmap htag).symm⟩
    · exact absurd (by rw [(List.cons.inj hfront).2]; simp) (RawAttribute.elementStart_not_mem name span tag')

/-- An attribute behind which there are only attributes is one of the tag. -/
private theorem mem_of_append_tag {front before : List Token} {name : QName} {span : Span} {a : RawAttribute}
    {tag later : List RawAttribute} (h : front ++ a.token :: later.map RawAttribute.token =
      before ++ .elementStart name span :: tag.map RawAttribute.token) : a ∈ tag := by
  rcases List.append_eq_append_iff.1 h with ⟨mid, -, hmid⟩ | ⟨mid, -, hmid⟩
  · rw [← List.map_cons] at hmid
    exact absurd (by rw [hmid]; simp) (RawAttribute.elementStart_not_mem name span (a :: later))
  · rcases mid with _ | ⟨t, mid⟩
    · simp [RawAttribute.token] at hmid
    · have ha : a.token ∈ tag.map RawAttribute.token := by
        rw [(List.cons.inj hmid).2]
        simp
      exact (List.mem_map_of_injective RawAttribute.token_injective).1 ha

namespace Reader

/-- The call reads the passages, one after the other; the calls before it have read tokens. -/
inductive Treats (r : Reader) (k : Nat) : Purpose → List Passage → Prop
  | text {content : Passage} {lexer : Lexer} (hbefore : ∀ j < k, (r.call j).2 = .token)
    (hl : (r.afterCalls k).lexer.next? = .ok (some (.text content, lexer))) : Treats r k .text [content]
  | entityValue {name value : Passage} {lexer : Lexer} (hbefore : ∀ j < k, (r.call j).2 = .token)
    (hl : (r.afterCalls k).lexer.next? = .ok (some (.entity name (some value), lexer))) :
    Treats r k .entityValue [value]
  | attributeValues {before : List Token} {name : QName} {span : Span} {tag : List RawAttribute} (hend : r.AtTagEnd k)
    (htag : r.tokensOfCalls k = before ++ .elementStart name span :: tag.map RawAttribute.token) :
    Treats r k .attributeValue (ordinaryValues tag)

/-! ### One attribute -/

section Attributes

variable {r : Reader} {a : RawAttribute} {e : ReadError}

theorem exists_eq_undefinedQualifier_of_namespaceOf {opened : OpenElements} {p : Passage}
    (h : opened.namespaceOf p = .error e) : ∃ q, e = .undefinedQualifier q := by
  unfold OpenElements.namespaceOf at h
  split at h
  · simp at h
  · split at h
    · simp at h
    · split at h
      · simp at h
      · exact ⟨p, (Except.error.inj h).symm⟩

/-- An attribute cannot be resolved if its qualifier means nothing, or else if its value cannot be expanded. -/
theorem resolveAttribute_eq_error (h : r.resolveAttribute a = .error e) :
    (∃ q, e = .undefinedQualifier q) ∨ r.entities.expand .attributeValue a.value = .error e := by
  rcases bind_eq_error_iff.1 h with hu | ⟨uri, -, h⟩
  · unfold OpenElements.namespaceOfAttribute at hu
    split at hu
    · simp at hu
    · exact .inl (exists_eq_undefinedQualifier_of_namespaceOf hu)
  · rcases bind_eq_error_iff.1 h with h | ⟨text, -, h⟩
    · exact .inr h
    · simp [pure, Except.pure] at h

private theorem resolveAttribute_ne_ok (h : r.entities.expand .attributeValue a.value = .error e) (b : Attribute) :
    r.resolveAttribute a ≠ .ok b := by
  intro hb
  obtain ⟨uri, -, hb⟩ := exists_of_bind_eq_ok hb
  obtain ⟨text, htext, -⟩ := exists_of_bind_eq_ok hb
  simp [h] at htext

private theorem exists_of_resolveAttribute_eq_ok {b : Attribute} (h : r.resolveAttribute a = .ok b) :
    ∃ text, r.entities.expand .attributeValue a.value = .ok text ∧ b.value = .ofList text := by
  obtain ⟨uri, -, h⟩ := exists_of_bind_eq_ok h
  obtain ⟨text, htext, h⟩ := exists_of_bind_eq_ok h
  exact ⟨text, htext, (congrArg Attribute.value (Except.ok.inj h)).symm⟩

/-- If a value of the start tag cannot be expanded, the element cannot be started: because of this value, of one in front
of it, or of a qualifier. -/
private theorem exists_startElement_eq_error {element : OpenElement} {front back : List RawAttribute}
    (hattributes : element.attributes = front ++ a :: back)
    (h : r.entities.expand .attributeValue a.value = .error e) :
    ∃ e', r.startElement element = .error e' ∧
      (e' = e ∨ (∃ b ∈ front, r.entities.expand .attributeValue b.value = .error e') ∨
        ∃ q, e' = .undefinedQualifier q) := by
  cases hstarted : r.startElement element with
  | ok started =>
    obtain ⟨uri, name, event⟩ := started
    obtain ⟨cs, attributes, -, hall, -⟩ := startElement_eq_ok hstarted
    have ha : a ∈ element.attributes := by simp [hattributes]
    obtain ⟨b, hb⟩ := exists_mapM_eq_ok_iff.1 ⟨attributes, hall⟩ a ha
    exact absurd hb (resolveAttribute_ne_ok h b)
  | error e' =>
    refine ⟨e', rfl, ?_⟩
    rcases bind_eq_error_iff.1 hstarted with hu | ⟨cs, -, hrest⟩
    · exact .inr (.inr (exists_eq_undefinedQualifier_of_namespaceOf hu))
    · rcases bind_eq_error_iff.1 hrest with hall | ⟨attributes, -, hdone⟩
      · obtain ⟨passed, b, later, hsplit, hpassed, hb⟩ := mapM_eq_error_iff.1 hall
        -- The first attribute that fails is not behind the one with the value.
        have hplace : b = a ∨ b ∈ front := by
          rw [hattributes] at hsplit
          rcases List.append_eq_append_iff.1 hsplit with ⟨mid, rfl, hmid⟩ | ⟨mid, rfl, hmid⟩
          · rcases mid with _ | ⟨x, mid⟩
            · exact .inl (List.cons.inj hmid).1.symm
            · obtain ⟨rfl, -⟩ := List.cons.inj hmid
              obtain ⟨c, hc⟩ := hpassed a (by simp)
              exact absurd hc (resolveAttribute_ne_ok h c)
          · rcases mid with _ | ⟨x, mid⟩
            · exact .inl (List.cons.inj hmid).1
            · obtain ⟨rfl, -⟩ := List.cons.inj hmid
              exact .inr (by simp)
        rcases resolveAttribute_eq_error hb with hq | hvalue
        · exact .inr (.inr hq)
        · rcases hplace with rfl | hfront
          · exact .inl (Except.error.inj (hvalue.symm.trans h))
          · exact .inr (.inl ⟨b, hfront, hvalue⟩)
      · simp [pure, Except.pure] at hdone

private theorem exists_texts_of_forall₂ {written : List RawAttribute} {attributes : Attributes}
    (h : List.Forall₂ (fun a b => r.resolveAttribute a = .ok b) written attributes) :
    ∃ texts : List (List Char), List.Forall₂ (fun p text => r.entities.expand .attributeValue p = .ok text)
      (written.map (·.value)) texts ∧ attributes.map (·.value) = texts.map String.ofList := by
  induction h with
  | nil => exact ⟨[], .nil, rfl⟩
  | cons hb _ ih =>
    obtain ⟨text, htext, hvalue⟩ := exists_of_resolveAttribute_eq_ok hb
    obtain ⟨texts, htexts, heq⟩ := ih
    exact ⟨text :: texts, .cons htext htexts, by simp [hvalue, heq]⟩

/-- The values of the attributes that an element starts with. -/
private theorem exists_texts_of_startElement {element : OpenElement} {uri name : String} {event : Event}
    (h : r.startElement element = .ok (uri, name, event)) :
    ∃ texts : List (List Char), List.Forall₂ (fun p text => r.entities.expand .attributeValue p = .ok text)
      (element.attributes.map (·.value)) texts ∧ event.texts = texts.map String.ofList := by
  obtain ⟨cs, attributes, -, hattributes, rfl, rfl, rfl⟩ := startElement_eq_ok h
  exact exists_texts_of_forall₂ (mapM_eq_ok_iff.1 hattributes)

end Attributes

/-! ### Calls -/

section Calls

variable {source : List Char} {systemId : Option String} {k : Nat} {purpose : Purpose} {ps : List Passage}

theorem Treats.before {r : Reader} (h : r.Treats k purpose ps) : ∀ j < k, (r.call j).2 = .token := by
  cases h with
  | text hbefore => exact hbefore
  | entityValue hbefore => exact hbefore
  | attributeValues hend => exact hend.1

/-- The element whose start tag ends here has the attributes of the tag. -/
private theorem AtTagEnd.exists_opened {before : List Token} {name : QName} {span : Span} {tag : List RawAttribute} :
    let r := start source systemId
    r.AtTagEnd k → r.tokensOfCalls k = before ++ .elementStart name span :: tag.map RawAttribute.token →
      ∃ outer, (r.afterCalls k).opened = .ofTag name span tag :: outer := by
  intro r hend htag
  obtain ⟨before', name', span', tag', outer, htag', ho, -⟩ := hend.exists_tag
  obtain ⟨rfl, rfl, rfl⟩ := tag_unique (htag.symm.trans htag')
  exact ⟨outer, ho⟩

/-- A passage that cannot be read makes the call fail. The error is that of the passage or of one in front of it, or it
is about a qualifier of the start tag. -/
theorem Treats.call_of_error {earlier later : List Passage} {p : Passage} {e : ReadError} :
    let r := start source systemId
    let read := purpose.read (r.afterCalls k).entities
    r.Treats k purpose (earlier ++ p :: later) → read p = .error e →
      ∃ e', (r.call k).2 = .failed e' ∧
        (e' = e ∨ (∃ q ∈ earlier, read q = .error e') ∨ purpose = .attributeValue ∧ ∃ q, e' = .undefinedQualifier q) := by
  intro r read h he
  have hs := stage_ne_of_before h.before
  generalize hps : earlier ++ p :: later = ps at h
  have hsingle : ∀ q, earlier ++ p :: later = [q] → p = q := by
    intro q hq
    rcases earlier with _ | ⟨x, earlier⟩
    · exact (List.cons.inj hq).1
    · simp at hq
  cases h with
  | @text content lexer hbefore hl =>
    obtain rfl := hsingle content hps
    have htake : takeToken { r.afterCalls k with lexer } (.text p) = .error e :=
      bind_eq_error_iff.2 (.inl he)
    exact ⟨e, congrArg (·.2.2) (advance_of_failed hs hl htake), .inl rfl⟩
  | @entityValue name value lexer hbefore hl =>
    obtain rfl := hsingle value hps
    have htake : takeToken { r.afterCalls k with lexer } (.entity name (some p)) = .error e :=
      bind_eq_error_iff.2 (.inl he)
    exact ⟨e, congrArg (·.2.2) (advance_of_failed hs hl htake), .inl rfl⟩
  | @attributeValues before name span tag hend htag =>
    obtain ⟨outer, ho⟩ := AtTagEnd.exists_opened hend htag
    obtain ⟨-, t, lexer, hl, ht⟩ := hend
    obtain ⟨front, back, hsplit, hfront, hback⟩ := List.map_eq_append_iff.1 hps.symm
    obtain ⟨a, back, rfl, rfl, -⟩ := List.map_eq_cons_iff.1 hback
    have hattributes : (OpenElement.ofTag name span tag).attributes = front ++ a :: back := by
      rw [OpenElement.attributes_ofTag, hsplit]
    obtain ⟨e', hstarted, hcause⟩ :=
      exists_startElement_eq_error (r := { r.afterCalls k with lexer }) hattributes he
    have htake := takeToken_of_tagEnd (r := { r.afterCalls k with lexer }) ho ht
    rw [hstarted] at htake
    refine ⟨e', congrArg (·.2.2) (advance_of_failed hs hl htake), ?_⟩
    rcases hcause with rfl | ⟨b, hb, hvalue⟩ | hq
    · exact .inl rfl
    · exact .inr (.inl ⟨b.value, hfront ▸ List.mem_map_of_mem hb, hvalue⟩)
    · exact .inr (.inr ⟨rfl, hq⟩)

theorem flatMap_texts_opening (r : Reader) : r.opening.flatMap Event.texts = [] := by
  unfold opening
  split <;> rfl

/-- A call that reads a token has read all of its passages, and hands on what they have become; the value of an entity is
kept by the reader. -/
theorem Treats.exists_texts :
    let r := start source systemId
    r.Treats k purpose ps → (r.call k).2 = .token →
      ∃ texts, List.Forall₂ (fun p text => purpose.read (r.afterCalls k).entities p = .ok text) ps texts ∧
        (purpose ≠ .entityValue → (r.call k).1.flatMap Event.texts = texts.map String.ofList) := by
  intro r h htoken
  obtain ⟨t, lexer, opened, entities, events, -, hl, htake, hevents, -⟩ := exists_of_call_token htoken
  rw [hevents, List.flatMap_append, flatMap_texts_opening, List.nil_append]
  cases h with
  | text hbefore hl' =>
    obtain ⟨rfl, rfl⟩ : _ = t ∧ _ = lexer := by simpa using hl'.symm.trans hl
    obtain ⟨text, htext, hdone⟩ := exists_of_bind_eq_ok htake
    obtain ⟨-, -, rfl⟩ : _ ∧ _ ∧ _ = events := by simpa [pure, Except.pure] using hdone
    exact ⟨[text], .cons htext .nil, fun _ => rfl⟩
  | entityValue hbefore hl' =>
    obtain ⟨rfl, rfl⟩ : _ = t ∧ _ = lexer := by simpa using hl'.symm.trans hl
    obtain ⟨text, htext, -⟩ := exists_of_bind_eq_ok htake
    exact ⟨[text], .cons htext .nil, fun hne => absurd rfl hne⟩
  | attributeValues hend htag =>
    obtain ⟨outer, ho⟩ := AtTagEnd.exists_opened hend htag
    obtain ⟨-, t', lexer', hl', ht⟩ := hend
    obtain ⟨rfl, rfl⟩ : t' = t ∧ lexer' = lexer := by simpa using hl'.symm.trans hl
    have hstart := takeToken_of_tagEnd (r := { r.afterCalls k with lexer := lexer' }) ho ht
    split at hstart
    · rename_i uri name event hstarted
      obtain ⟨opened', closing, htake', hclosing⟩ := hstart
      obtain ⟨-, -, rfl⟩ : opened' = opened ∧ _ ∧ event :: closing = events := by simpa using htake'.symm.trans htake
      obtain ⟨texts, htexts, hevent⟩ := exists_texts_of_startElement hstarted
      rw [OpenElement.attributes_ofTag] at htexts
      refine ⟨texts, htexts, fun _ => ?_⟩
      have hsilent : closing.flatMap Event.texts = [] := by rcases hclosing with rfl | rfl <;> rfl
      rw [List.flatMap_cons, hsilent, List.append_nil, hevent]
    · simp [htake] at hstart

end Calls

/-! ### Whole documents -/

section Documents

variable {source : List Char} {systemId : Option String}

/-- Behind an attribute there are more attributes, and then the end of the tag. -/
private theorem StopsAt.exists_atTagEnd {i j : Nat} {a : RawAttribute} :
    let r := start source systemId
    r.StopsAt i .finished → r.tokenOfCall j = some a.token →
      ∃ k > j, r.AtTagEnd k ∧ k < i ∧ ∃ later : List RawAttribute,
        r.tokensOfCalls k = r.tokensOfCalls j ++ a.token :: later.map RawAttribute.token := by
  intro r hstops htoken
  have hj : j < i := hstops.lt_of_token (by simp) (call_of_tokenOfCall htoken)
  obtain ⟨t₀, lexer₀, opened₀, entities₀, events₀, ht₀, hl₀, -, -, hnext₀⟩ :=
    exists_of_call_token (call_of_tokenOfCall htoken)
  obtain rfl := Option.some.inj (htoken.symm.trans ht₀)
  -- As long as the tag has not ended, the reader is inside it.
  have hrun : ∀ n, j + 1 ≤ n → n ≤ i →
      (∃ k > j, r.AtTagEnd k ∧ k < n ∧ ∃ later : List RawAttribute,
        r.tokensOfCalls k = r.tokensOfCalls j ++ a.token :: later.map RawAttribute.token) ∨
      (r.afterCalls n).lexer.phase.isInTag ∧ ∃ later : List RawAttribute,
        r.tokensOfCalls n = r.tokensOfCalls j ++ a.token :: later.map RawAttribute.token := by
    intro n hn
    induction n, hn using Nat.le_induction with
    | base =>
      intro _
      refine .inr ⟨?_, [], by rw [tokensOfCalls, htoken]; rfl⟩
      obtain ⟨depth, -, hphase⟩ := (Lexer.goes_of_next? hl₀).exists_of_attr
      have hafter : (r.afterCalls (j + 1)).lexer.phase = lexer₀.phase := congrArg (·.lexer.phase) hnext₀
      rw [hafter, hphase]
      rfl
    | succ n hn ih =>
      intro hle
      rcases ih (by omega) with ⟨k, hk, hend, hlt, hlater⟩ | ⟨hphase, later, hlater⟩
      · exact .inl ⟨k, hk, hend, by omega, hlater⟩
      · obtain ⟨t, lexer, opened, entities, events, ht, hl, -, -, hnext⟩ :=
          exists_of_call_token (hstops.before n (by omega))
        have hgoes := Lexer.goes_of_next? hl
        have hafter : (r.afterCalls (n + 1)).lexer.phase = lexer.phase := congrArg (·.lexer.phase) hnext
        have hend : t = .openEnd ∨ t = .emptyEnd → r.AtTagEnd n := fun hend =>
          ⟨fun m hm => hstops.before m (by omega), t, lexer, hl, hend⟩
        rw [hafter, tokensOfCalls, ht, hlater]
        generalize (r.afterCalls n).lexer.phase = phase at hgoes hphase
        generalize lexer.phase = phase' at hgoes
        cases hgoes with
        | attr depth name value => exact .inr ⟨rfl, later ++ [⟨name, value⟩], by simp [RawAttribute.token]⟩
        | openEnd depth => exact .inl ⟨n, by omega, hend (.inl rfl), by omega, later, hlater⟩
        | emptyEnd depth => exact .inl ⟨n, by omega, hend (.inr rfl), by omega, later, hlater⟩
        | prolog hp | root hp => simp [hp.isInTag_eq] at hphase
        | _ => simp [Phase.isInTag] at hphase
  rcases hrun i hj (Nat.le_refl i) with h | ⟨hphase, -⟩
  · exact h
  · -- No tag is open where the document ends.
    obtain ⟨⟨body, -, hend⟩, -⟩ := events_of_finished hstops
    generalize (r.afterCalls i).lexer.phase = phase at hphase hend
    rcases hend with ⟨hprolog, -⟩ | ⟨rfl, -⟩
    · simp [hprolog.isInTag_eq] at hphase
    · simp [Phase.isInTag] at hphase

/-- In a document that is read without an error, each passage that may hold references is read: by the call that reads
its token, or by a later one that comes to the end of its tag. -/
theorem exists_treats {j : Nat} {t : Token} {purpose : Purpose} {p : Passage} :
    let r := start source systemId
    r.error? = none → r.tokenOfCall j = some t → t.passage? = some (purpose, p) →
      ∃ k ≥ j, ∃ ps, r.Treats k purpose ps ∧ p ∈ ps ∧ (r.call k).2 = .token := by
  intro r hread htoken hp
  obtain ⟨i, hstops⟩ := exists_stopsAt_finished hread
  have hcall := call_of_tokenOfCall htoken
  have hj : j < i := hstops.lt_of_token (by simp) hcall
  have hbefore : ∀ m < j, (r.call m).2 = .token := fun m hm => hstops.before m (by omega)
  obtain ⟨t', lexer, opened, entities, events, ht, hl, -, -, -⟩ := exists_of_call_token hcall
  obtain rfl := Option.some.inj (htoken.symm.trans ht)
  cases t with
  | text content =>
    obtain ⟨rfl, rfl⟩ := Prod.mk.inj (Option.some.inj hp)
    exact ⟨j, Nat.le_refl j, _, .text hbefore hl, by simp, hcall⟩
  | entity name value =>
    cases value with
    | none => simp [Token.passage?] at hp
    | some value =>
      obtain ⟨rfl, rfl⟩ := Prod.mk.inj (Option.some.inj hp)
      exact ⟨j, Nat.le_refl j, _, .entityValue hbefore hl, by simp, hcall⟩
  | «attribute» name value =>
    have hordinary : name.isDeclaration = false ∧ Purpose.attributeValue = purpose ∧ value = p := by
      simpa [Token.passage?] using hp
    obtain ⟨hordinary, rfl, rfl⟩ := hordinary
    have htoken' : r.tokenOfCall j = some (RawAttribute.token ⟨name, value⟩) := htoken
    obtain ⟨k, hk, hend, hki, later, htokens⟩ := hstops.exists_atTagEnd htoken'
    obtain ⟨before, name', span, tag, outer, htag, -⟩ := hend.exists_tag
    have ha : ⟨name, value⟩ ∈ tag := mem_of_append_tag (htokens.symm.trans htag)
    refine ⟨k, Nat.le_of_lt hk, _, .attributeValues hend htag, ?_, hstops.before k hki⟩
    exact List.mem_map.2 ⟨⟨name, value⟩, List.mem_filter.2 ⟨ha, by simp [hordinary]⟩, rfl⟩
  | aside | elementStart | openEnd | emptyEnd | closeTag | cdata => simp [Token.passage?] at hp

end Documents

end Reader

end Xml

end MapMarkup
