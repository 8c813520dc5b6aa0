import MapMarkup.Xml.Reader

/-!
# What a token does as a whole

Whatever the piece at which taking a token fails, the pieces before it have only looked things up: an event is given, an
element ended and an entity declared only when nothing can fail any more. So a token that fails leaves everything as it
was, and one that does not changes the open elements, the entities and the events by what `Reader.takeToken` says
(`Reader.token_eq`). What this may be is listed by `Reader.Takes` (`Reader.takes_of_takeToken`). Only the tokens that
end tags have events with locators, and these locators are the place that the reader has come to
(`Reader.Takes.locator_eq`).
-/

namespace MapMarkup

/-- The place of a tag. -/
def Event.locator? : Event → Option Locator
  | startElement locator .. | endElement locator .. => some locator
  | startDocument | endDocument | reset | characters _ | sourceIsCss _ => none

namespace Xml

theorem exists_of_bind_eq_ok {ε α β : Type} {x : Except ε α} {f : α → Except ε β} {b : β} (h : (x >>= f) = .ok b) :
    ∃ a, x = .ok a ∧ f a = .ok b := by
  cases x with
  | error e => cases h
  | ok a => exact ⟨a, rfl, h⟩

theorem bind_eq_error_iff {ε α β : Type} {x : Except ε α} {f : α → Except ε β} {e : ε} :
    (x >>= f) = .error e ↔ x = .error e ∨ ∃ a, x = .ok a ∧ f a = .error e := by
  cases x <;> simp [bind, Except.bind]

/-- Whether a token ends a tag. -/
def Token.isTagEnd : Token → Bool
  | openEnd | emptyEnd | closeTag _ _ => true
  | aside | entity _ _ | elementStart _ _ | .attribute _ _ | text _ | cdata _ => false

namespace Reader

/-- An attribute with its namespace resolved and its value expanded. -/
def resolveAttribute (r : Reader) (a : RawAttribute) : Except ReadError Attribute := do
  let uri ← r.opened.namespaceOfAttribute a.name.qualifier
  let value ← r.entities.expand .attributeValue a.value
  return ⟨.ofList uri, .ofList a.name.base.chars, .ofList value,
    uri = xmlNamespace && a.name.base.chars = "id".toList⟩

/-- The URI and the name of an element and its start, at the end of its start tag. -/
def startElement (r : Reader) (e : OpenElement) : Except ReadError (String × String × Event) := do
  let uri ← r.opened.namespaceOf e.name.qualifier
  let attributes ← e.attributes.mapM r.resolveAttribute
  let uri := String.ofList uri
  let name := String.ofList e.name.base.chars
  return (uri, name, .startElement r.locator uri name attributes)

/-- What a token leaves open and declared, and its events. The lexer of the reader stands behind the token. -/
def takeToken (r : Reader) : Token → Except ReadError (OpenElements × Entities × List Event)
  | .aside => .ok (r.opened, r.entities, [])
  | .entity name none => .error (.externalEntity name)
  | .entity name (some value) => do
    let text ← replacementText value
    return (r.opened, r.entities.declare name.chars text, [])
  | .elementStart name span => .ok ({ name, span } :: r.opened, r.entities, [])
  | .attribute name value =>
    match r.opened with
    | [] => .ok ([], r.entities, [])
    | e :: outer => .ok (e.addAttribute name value :: outer, r.entities, [])
  | .openEnd =>
    match r.opened with
    | [] => .ok ([], r.entities, [.startElement r.locator "" "" []])
    | e :: outer => do
      let (_, _, event) ← r.startElement e
      return (e :: outer, r.entities, [event])
  | .emptyEnd =>
    match r.opened with
    | [] => .ok ([], r.entities, [.startElement r.locator "" "" [], .endElement r.locator "" ""])
    | e :: outer => do
      let (uri, name, event) ← r.startElement e
      return (outer, r.entities, [event, .endElement r.locator uri name])
  | .closeTag name span =>
    match r.opened with
    | [] => .error (.unexpectedEndTag span)
    | e :: outer =>
      if e.name.sameAs name then do
        let uri ← r.opened.namespaceOf e.name.qualifier
        return (outer, r.entities, [.endElement r.locator (.ofList uri) (.ofList name.base.chars)])
      else .error (.mismatchedEndTag e.span span)
  | .text content => do
    let text ← r.entities.expand .content content
    return (r.opened, r.entities, [.characters (.ofList text)])
  | .cdata content => .ok (r.opened, r.entities, [.characters (.ofList content.chars)])

/-! ### A token that fails leaves no trace -/

section

variable {α β : Type} {x : Taking α} {y : Except ReadError α} {p : Progress}

/-- `x` comes to `y` and leaves everything as it is, whether it fails or not. -/
def LooksUp (p : Progress) (x : Taking α) (y : Except ReadError α) : Prop :=
  x p = match y with
    | .ok a => .ok a p
    | .error e => .error e p

private theorem looksUp_ofExcept (y : Except ReadError α) : LooksUp p (MonadExcept.ofExcept y) y := by
  cases y <;> rfl

private theorem get_bind_apply (f : Progress → Taking β) : ((get : Taking Progress) >>= f) p = f p p :=
  rfl

private theorem bind_apply_of_ok {a : α} {q : Progress} (h : x p = .ok a q) (f : α → Taking β) :
    (x >>= f) p = f a q := by
  change EStateM.bind x f p = _
  rw [EStateM.bind, h]

private theorem bind_apply_of_error {e : ReadError} {q : Progress} (h : x p = .error e q) (f : α → Taking β) :
    (x >>= f) p = .error e q := by
  change EStateM.bind x f p = _
  rw [EStateM.bind, h]

/-- Behind a look-up that does not fail, everything is as it was. -/
private theorem LooksUp.bind_apply (f : α → Taking β) : LooksUp p x y →
    (x >>= f) p = match y with
      | .ok a => f a p
      | .error e => .error e p := by
  intro h
  cases y with
  | ok a => exact bind_apply_of_ok h f
  | error e => exact bind_apply_of_error h f

private theorem LooksUp.bind {f : α → Taking β} {g : α → Except ReadError β} (h : LooksUp p x y)
    (hf : ∀ a, LooksUp p (f a) (g a)) : LooksUp p (x >>= f) (y >>= g) := by
  unfold LooksUp
  rw [h.bind_apply]
  cases y with
  | error e => rfl
  | ok a => exact hf a

private theorem looksUp_pure (a : α) : LooksUp p (pure a) (pure a) :=
  rfl

/-- Looking things up one after the other is looking things up. -/
private theorem looksUp_mapM {f : α → Taking β} {g : α → Except ReadError β} (h : ∀ a, LooksUp p (f a) (g a))
    (l : List α) : LooksUp p (l.mapM f) (l.mapM g) := by
  induction l with
  | nil => exact looksUp_pure []
  | cons a l ih =>
    rw [List.mapM_cons, List.mapM_cons]
    exact (h a).bind fun b => ih.bind fun bs => looksUp_pure (b :: bs)

end

section

variable (r : Reader) (said : List Event)

/-- What is open and declared, behind the given events. -/
def progress : Progress :=
  ⟨r.opened, r.entities, said⟩

private theorem looksUp_expand (context : Context) (text : Passage) :
    LooksUp (r.progress said) (Taking.expand context text) (r.entities.expand context text) :=
  looksUp_ofExcept _

private theorem looksUp_resolveAttribute (a : RawAttribute) :
    LooksUp (r.progress said) (Taking.resolveAttribute a) (r.resolveAttribute a) :=
  (looksUp_ofExcept (r.opened.namespaceOfAttribute a.name.qualifier)).bind fun _ =>
    (looksUp_expand r said _ _).bind fun _ => looksUp_pure _

private theorem looksUp_currentElement {e : OpenElement} {outer : OpenElements} (ho : r.opened = e :: outer) :
    LooksUp (r.progress said) Taking.currentElement (do
      let uri ← r.opened.namespaceOf e.name.qualifier
      return (.ofList uri, .ofList e.name.base.chars)) := by
  have hcurrent : Taking.currentElement (r.progress said) = (do
      let uri ← MonadExcept.ofExcept (r.opened.namespaceOf e.name.qualifier)
      return (.ofList uri, .ofList e.name.base.chars) : Taking (String × String)) (r.progress said) := by
    rw [Taking.currentElement, get_bind_apply, progress, ho]
  exact hcurrent.trans ((looksUp_ofExcept _).bind fun _ => looksUp_pure _)

/-- The start of an element is given when all of it has been looked up. -/
private theorem startElement_eq {e : OpenElement} {outer : OpenElements} (ho : r.opened = e :: outer) :
    Taking.startElement r.locator (r.progress said) =
      match r.startElement e with
      | .ok (uri, name, event) => .ok (uri, name) (r.progress (said ++ [event]))
      | .error e => .error e (r.progress said) := by
  have hattributes : LooksUp (r.progress said)
      (((r.progress said).opened.head?.elim [] (·.attributes)).mapM Taking.resolveAttribute)
      (e.attributes.mapM r.resolveAttribute) := by
    rw [progress, ho]
    exact looksUp_mapM (fun a => ho ▸ looksUp_resolveAttribute r said a) e.attributes
  refine ((looksUp_currentElement r said ho).bind_apply _).trans ?_
  unfold startElement
  cases r.opened.namespaceOf e.name.qualifier with
  | error e => rfl
  | ok uri =>
    refine (hattributes.bind_apply _).trans ?_
    cases e.attributes.mapM r.resolveAttribute <;> rfl

private theorem startElement_bind_apply {β : Type} {e : OpenElement} {outer : OpenElements} (ho : r.opened = e :: outer)
    (f : String × String → Taking β) :
    (Taking.startElement r.locator >>= f) (r.progress said) =
      match r.startElement e with
      | .ok (uri, name, event) => f (uri, name) (r.progress (said ++ [event]))
      | .error e => .error e (r.progress said) := by
  have hstart := startElement_eq r said ho
  cases hs : r.startElement e with
  | ok started =>
    rw [hs] at hstart
    exact bind_apply_of_ok hstart f
  | error e' =>
    rw [hs] at hstart
    exact bind_apply_of_error hstart f

/-- Outside all elements a tag is about an element without a name. -/
private theorem startElement_eq_of_nil (ho : r.opened = []) :
    Taking.startElement r.locator (r.progress said) =
      .ok ("", "") (r.progress (said ++ [.startElement r.locator "" "" []])) := by
  rw [progress, progress, ho]
  rfl

private theorem endElement_eq (name : QName) (span : Span) :
    Taking.endElement name span (r.progress said) =
      match r.opened with
      | [] => .error (.unexpectedEndTag span) (r.progress said)
      | e :: outer =>
        if e.name.sameAs name then
          match r.opened.namespaceOf e.name.qualifier with
          | .ok uri => .ok (.ofList uri) ⟨outer, r.entities, said⟩
          | .error e => .error e (r.progress said)
        else .error (.mismatchedEndTag e.span span) (r.progress said) := by
  rw [Taking.endElement, get_bind_apply]
  rcases ho : r.opened with _ | ⟨e, outer⟩
  · rw [progress, ho]
    rfl
  · have hopened : (r.progress said).opened = e :: outer := ho
    simp only [hopened]
    by_cases hname : e.name.sameAs name = true
    · simp only [hname, ↓reduceIte, ← ho]
      refine ((looksUp_currentElement r said ho).bind_apply _).trans ?_
      cases r.opened.namespaceOf e.name.qualifier with
      | error e => rfl
      | ok uri =>
        rw [progress, ho]
        rfl
    · simp only [hname, ↓reduceIte, Bool.false_eq_true]
      rfl

/-- Taking a token does what the token does as a whole, or else it fails and has done nothing. -/
theorem token_eq (t : Token) :
    Taking.token r.locator t (r.progress said) =
      match r.takeToken t with
      | .ok (opened, entities, events) => .ok () ⟨opened, entities, said ++ events⟩
      | .error e => .error e (r.progress said) := by
  cases t with
  | aside =>
    simp only [takeToken, List.append_nil]
    rfl
  | entity name value =>
    cases value with
    | none => rfl
    | some value =>
      refine ((looksUp_ofExcept (replacementText value)).bind_apply _).trans ?_
      simp only [takeToken]
      cases replacementText value with
      | error e => rfl
      | ok text =>
        simp only [bind, Except.bind, pure, Except.pure, List.append_nil]
        rfl
  | elementStart name span =>
    simp only [takeToken, List.append_nil]
    rfl
  | «attribute» name value =>
    rcases ho : r.opened with _ | ⟨e, outer⟩
    · simp only [takeToken, ho, List.append_nil]
      simp only [Taking.token, Taking.addAttribute, progress, ho]
      rfl
    · simp only [takeToken, ho, List.append_nil]
      simp only [Taking.token, Taking.addAttribute, progress, ho]
      rfl
  | openEnd =>
    rcases ho : r.opened with _ | ⟨e, outer⟩
    · rw [Taking.token, bind_apply_of_ok (startElement_eq_of_nil r said ho)]
      simp only [takeToken, progress, ho]
      rfl
    · rw [Taking.token, startElement_bind_apply r said ho]
      simp only [takeToken, progress, ho]
      cases r.startElement e <;> rfl
  | emptyEnd =>
    rcases ho : r.opened with _ | ⟨e, outer⟩
    · rw [Taking.token, bind_apply_of_ok (startElement_eq_of_nil r said ho)]
      simp only [takeToken, progress, ho]
      rw [List.append_cons said _ [.endElement r.locator "" ""]]
      rfl
    · rw [Taking.token, startElement_bind_apply r said ho]
      simp only [takeToken, progress, ho]
      cases r.startElement e with
      | error e' => rfl
      | ok started =>
        simp only [bind, Except.bind, pure, Except.pure]
        rw [List.append_cons said _ [.endElement r.locator started.1 started.2.1]]
        rfl
  | closeTag name span =>
    have hend := endElement_eq r said name span
    rcases ho : r.opened with _ | ⟨e, outer⟩
    · rw [ho] at hend
      rw [Taking.token, bind_apply_of_error hend]
      simp only [takeToken, ho]
    · simp only [ho] at hend
      by_cases hname : e.name.sameAs name = true
      · simp only [hname, ↓reduceIte] at hend
        cases huri : OpenElements.namespaceOf (e :: outer) e.name.qualifier with
        | error e' =>
          rw [huri] at hend
          rw [Taking.token, bind_apply_of_error hend]
          simp only [takeToken, ho, hname, huri, ↓reduceIte, bind, Except.bind]
        | ok uri =>
          rw [huri] at hend
          rw [Taking.token, bind_apply_of_ok hend]
          simp only [takeToken, ho, hname, huri, ↓reduceIte]
          rfl
      · simp only [hname, ↓reduceIte, Bool.false_eq_true] at hend
        rw [Taking.token, bind_apply_of_error hend]
        simp only [takeToken, ho, hname, ↓reduceIte, Bool.false_eq_true]
  | text content =>
    refine ((looksUp_expand r said .content content).bind_apply _).trans ?_
    simp only [takeToken]
    cases r.entities.expand .content content <;> rfl
  | cdata content => rfl

end

/-- What a token may leave open and declared, with its events. A part of a start tag outside all elements, which no
lexer gives, is about an element without a name. -/
inductive Takes (r : Reader) : Token → OpenElements → Entities → List Event → Prop
  | aside : Takes r .aside r.opened r.entities []
  | entity (name : Passage) {value : Passage} {cs : List Char} (hcs : replacementText value = .ok cs) :
    Takes r (.entity name (some value)) r.opened (r.entities.declare name.chars cs) []
  | elementStart (name : QName) (span : Span) :
    Takes r (.elementStart name span) ({ name, span } :: r.opened) r.entities []
  | strayAttr (ho : r.opened = []) (name : QName) (value : Passage) : Takes r (.attribute name value) [] r.entities []
  | strayOpenEnd (ho : r.opened = []) : Takes r .openEnd [] r.entities [.startElement r.locator "" "" []]
  | strayEmptyEnd (ho : r.opened = []) :
    Takes r .emptyEnd [] r.entities [.startElement r.locator "" "" [], .endElement r.locator "" ""]
  | attr {e : OpenElement} {outer : OpenElements} (ho : r.opened = e :: outer) (name : QName) (value : Passage) :
    Takes r (.attribute name value) (e.addAttribute name value :: outer) r.entities []
  | openEnd {e : OpenElement} {outer : OpenElements} {uri name : String} {event : Event} (ho : r.opened = e :: outer)
    (hs : r.startElement e = .ok (uri, name, event)) : Takes r .openEnd (e :: outer) r.entities [event]
  | emptyEnd {e : OpenElement} {outer : OpenElements} {uri name : String} {event : Event} (ho : r.opened = e :: outer)
    (hs : r.startElement e = .ok (uri, name, event)) :
    Takes r .emptyEnd outer r.entities [event, .endElement r.locator uri name]
  | closeTag {e : OpenElement} {outer : OpenElements} {name : QName} (span : Span) {uri : List Char}
    (ho : r.opened = e :: outer) (hname : e.name.sameAs name) (huri : r.opened.namespaceOf e.name.qualifier = .ok uri) :
    Takes r (.closeTag name span) outer r.entities
      [.endElement r.locator (.ofList uri) (.ofList name.base.chars)]
  | text {content : Passage} {cs : List Char} (hcs : r.entities.expand .content content = .ok cs) :
    Takes r (.text content) r.opened r.entities [.characters (.ofList cs)]
  | cdata (content : Passage) :
    Takes r (.cdata content) r.opened r.entities [.characters (.ofList content.chars)]

variable {r : Reader} {t : Token} {opened : OpenElements} {entities : Entities} {events : List Event}

/-- The start of an element, which names it as its qualifier stands among the open elements. -/
theorem startElement_eq_ok {e : OpenElement} {uri name : String} {event : Event}
    (h : r.startElement e = .ok (uri, name, event)) :
    ∃ cs attributes, r.opened.namespaceOf e.name.qualifier = .ok cs ∧
      e.attributes.mapM r.resolveAttribute = .ok attributes ∧ uri = .ofList cs ∧
      name = .ofList e.name.base.chars ∧ event = .startElement r.locator uri name attributes := by
  obtain ⟨cs, hcs, h⟩ := exists_of_bind_eq_ok h
  obtain ⟨attributes, hattributes, h⟩ := exists_of_bind_eq_ok h
  simp only [pure, Except.pure, Except.ok.injEq, Prod.mk.injEq] at h
  obtain ⟨rfl, rfl, rfl⟩ := h
  exact ⟨cs, attributes, hcs, hattributes, rfl, rfl, rfl⟩

/-- Where an element is open whose qualifier stands for a URI, an end tag either has the name of the element and ends
it, or it does not match. -/
theorem takeToken_closeTag {e : OpenElement} {outer : OpenElements} {uri : List Char} (ho : r.opened = e :: outer)
    (huri : r.opened.namespaceOf e.name.qualifier = .ok uri) (name : QName) (span : Span) :
    r.takeToken (.closeTag name span) =
      if e.name.sameAs name then
        .ok (outer, r.entities, [.endElement r.locator (.ofList uri) (.ofList name.base.chars)])
      else .error (.mismatchedEndTag e.span span) := by
  rw [ho] at huri
  simp only [takeToken, ho, huri]
  rfl

private theorem eq_of_ok_eq {entities' : Entities} {opened' : OpenElements} {events' : List Event}
    (h : (.ok (opened', entities', events') : Except ReadError _) = .ok (opened, entities, events)) :
    opened' = opened ∧ entities' = entities ∧ events' = events := by
  simpa using h

theorem takes_of_takeToken (h : r.takeToken t = .ok (opened, entities, events)) :
    r.Takes t opened entities events := by
  cases t with
  | aside =>
    obtain ⟨rfl, rfl, rfl⟩ := eq_of_ok_eq h
    exact .aside
  | entity name value =>
    cases value with
    | none => simp only [takeToken, reduceCtorEq] at h
    | some value =>
      obtain ⟨cs, hcs, h⟩ := exists_of_bind_eq_ok h
      obtain ⟨rfl, rfl, rfl⟩ := eq_of_ok_eq h
      exact .entity name hcs
  | elementStart name span =>
    obtain ⟨rfl, rfl, rfl⟩ := eq_of_ok_eq h
    exact .elementStart name span
  | «attribute» name value =>
    rcases ho : r.opened with _ | ⟨e, outer⟩
    · simp only [takeToken, ho] at h
      obtain ⟨rfl, rfl, rfl⟩ := eq_of_ok_eq h
      exact .strayAttr ho name value
    · simp only [takeToken, ho] at h
      obtain ⟨rfl, rfl, rfl⟩ := eq_of_ok_eq h
      exact .attr ho name value
  | openEnd =>
    rcases ho : r.opened with _ | ⟨e, outer⟩
    · simp only [takeToken, ho] at h
      obtain ⟨rfl, rfl, rfl⟩ := eq_of_ok_eq h
      exact .strayOpenEnd ho
    · simp only [takeToken, ho] at h
      obtain ⟨⟨uri, name, event⟩, hs, h⟩ := exists_of_bind_eq_ok h
      obtain ⟨rfl, rfl, rfl⟩ := eq_of_ok_eq h
      exact .openEnd ho hs
  | emptyEnd =>
    rcases ho : r.opened with _ | ⟨e, outer⟩
    · simp only [takeToken, ho] at h
      obtain ⟨rfl, rfl, rfl⟩ := eq_of_ok_eq h
      exact .strayEmptyEnd ho
    · simp only [takeToken, ho] at h
      obtain ⟨⟨uri, name, event⟩, hs, h⟩ := exists_of_bind_eq_ok h
      obtain ⟨rfl, rfl, rfl⟩ := eq_of_ok_eq h
      exact .emptyEnd ho hs
  | closeTag name span =>
    rcases ho : r.opened with _ | ⟨e, outer⟩
    · simp only [takeToken, ho, reduceCtorEq] at h
    · by_cases hname : e.name.sameAs name = true
      · simp only [takeToken, ho, hname, ↓reduceIte] at h
        obtain ⟨uri, huri, h⟩ := exists_of_bind_eq_ok h
        obtain ⟨rfl, rfl, rfl⟩ := eq_of_ok_eq h
        exact .closeTag span ho hname (ho ▸ huri)
      · simp only [takeToken, ho, hname, Bool.false_eq_true, ↓reduceIte, reduceCtorEq] at h
  | text content =>
    obtain ⟨cs, hcs, h⟩ := exists_of_bind_eq_ok h
    obtain ⟨rfl, rfl, rfl⟩ := eq_of_ok_eq h
    exact .text hcs
  | cdata content =>
    obtain ⟨rfl, rfl, rfl⟩ := eq_of_ok_eq h
    exact .cdata content

theorem Takes.locator_eq (h : r.Takes t opened entities events) {e : Event} (he : e ∈ events) {locator : Locator}
    (hl : e.locator? = some locator) : t.isTagEnd ∧ locator = r.locator := by
  cases h with
  | aside | entity | elementStart | strayAttr | attr => simp at he
  | strayOpenEnd =>
    obtain rfl := List.mem_singleton.1 he
    exact ⟨rfl, (Option.some.inj hl).symm⟩
  | strayEmptyEnd =>
    simp only [List.mem_cons, List.not_mem_nil, or_false] at he
    rcases he with rfl | rfl
    · exact ⟨rfl, (Option.some.inj hl).symm⟩
    · exact ⟨rfl, (Option.some.inj hl).symm⟩
  | text | cdata =>
    obtain rfl := List.mem_singleton.1 he
    simp [Event.locator?] at hl
  | openEnd ho hs =>
    obtain ⟨cs, attributes, -, -, -, -, rfl⟩ := startElement_eq_ok hs
    obtain rfl := List.mem_singleton.1 he
    exact ⟨rfl, (Option.some.inj hl).symm⟩
  | emptyEnd ho hs =>
    obtain ⟨cs, attributes, -, -, -, -, rfl⟩ := startElement_eq_ok hs
    simp only [List.mem_cons, List.not_mem_nil, or_false] at he
    rcases he with rfl | rfl
    · exact ⟨rfl, (Option.some.inj hl).symm⟩
    · exact ⟨rfl, (Option.some.inj hl).symm⟩
  | closeTag =>
    obtain rfl := List.mem_singleton.1 he
    exact ⟨rfl, (Option.some.inj hl).symm⟩

end Reader

end Xml

end MapMarkup
