import MapMarkup.Proofs.Nesting
import MapMarkup.Proofs.Phases
import MapMarkup.Proofs.Tokens

/-!
# What tokens open and close

A reader, its lexer and the events that it gives all know which elements are open: the lexer counts them in its phase,
the reader keeps their tags, and the events name them. The three agree after every token (`Agree.takeToken`), apart from
the element whose start tag is being read, which has had no event yet. The URI of an end is looked up anew at the end
tag, among the declarations of the elements that are open then; it is that of the start because an open element keeps
its declarations once its start tag is complete (`NamedAs`).
-/

namespace MapMarkup.Xml

open Event (Content)

/-! ### Open elements -/

/-- The elements have been started with these URIs and names: each qualifier stands for the URI where the element is. -/
inductive NamedAs : OpenElements → List ElementName → Prop
  | nil : NamedAs [] []
  | cons {e : OpenElement} {outer : OpenElements} {uri : List Char} {names : List ElementName}
    (huri : OpenElements.namespaceOf (e :: outer) e.name.qualifier = .ok uri) (houter : NamedAs outer names) :
    NamedAs (e :: outer) ((.ofList uri, .ofList e.name.base.chars) :: names)

private theorem NamedAs.length_eq {opened : OpenElements} {names : List ElementName} (h : NamedAs opened names) :
    opened.length = names.length := by
  induction h with
  | nil => rfl
  | cons _ _ ih => simp only [List.length_cons, ih]

/-- The phase of a lexer, the elements that a reader keeps and those that have been started by events agree. -/
inductive Agree : Phase → OpenElements → List ElementName → Prop
  | outside {p : Phase} (hp : p.IsProlog ∨ p = .afterRoot) : Agree p [] []
  | content {depth : Nat} {opened : OpenElements} {names : List ElementName} (hd : depth = names.length)
    (hn : names ≠ []) (ho : NamedAs opened names) : Agree (.content depth) opened names
  | inTag {depth : Nat} {e : OpenElement} {outer : OpenElements} {names : List ElementName} (hd : depth = names.length)
    (ho : NamedAs outer names) : Agree (.inTag depth) (e :: outer) names

/-- Whether a start tag is being read. -/
def Phase.isInTag : Phase → Bool
  | .inTag _ => true
  | _ => false

theorem Phase.IsProlog.isInTag_eq {p : Phase} (h : p.IsProlog) : p.isInTag = false := by
  cases p with
  | inTag => exact h.elim
  | _ => rfl

/-- The reader keeps the elements that have been started, and the one whose start tag is being read. -/
theorem Agree.length_eq {p : Phase} {opened : OpenElements} {names : List ElementName} (h : Agree p opened names) :
    names.length + (if p.isInTag then 1 else 0) = opened.length := by
  cases h with
  | outside hp =>
    rcases hp with hp | rfl
    · rw [hp.isInTag_eq]
      rfl
    · rfl
  | content _ _ ho => exact ho.length_eq.symm
  | inTag _ ho => simp [Phase.isInTag, ho.length_eq]

private theorem Agree.of_outside {p : Phase} {opened : OpenElements} {names : List ElementName}
    (h : Agree p opened names)
    (hp : p.IsProlog ∨ p = .afterRoot) : opened = [] ∧ names = [] := by
  cases h with
  | outside => exact ⟨rfl, rfl⟩
  | content | inTag => simp [Phase.IsProlog] at hp

theorem Agree.of_content {depth : Nat} {opened : OpenElements} {names : List ElementName}
    (h : Agree (.content depth) opened names) : depth = names.length ∧ names ≠ [] ∧ NamedAs opened names := by
  cases h with
  | outside hp => simp [Phase.IsProlog] at hp
  | content hd hn ho => exact ⟨hd, hn, ho⟩

/-- In content there is an innermost element. The lexer counts it, and it has been started with the URI for which its
qualifier stands. -/
theorem Agree.exists_innermost {depth : Nat} {opened : OpenElements} {names : List ElementName}
    (h : Agree (.content depth) opened names) :
    ∃ e outer uri outerNames, opened = e :: outer ∧ depth = outer.length + 1 ∧
      opened.namespaceOf e.name.qualifier = .ok uri ∧
      names = (.ofList uri, .ofList e.name.base.chars) :: outerNames := by
  obtain ⟨hd, hne, hnamed⟩ := h.of_content
  have hlength := hnamed.length_eq
  cases hnamed with
  | nil => exact absurd rfl hne
  | @cons e outer uri names huri _ =>
    exact ⟨e, outer, uri, names, rfl, hd.trans hlength.symm, huri, rfl⟩

theorem Agree.of_inTag {depth : Nat} {opened : OpenElements} {names : List ElementName}
    (h : Agree (.inTag depth) opened names) :
    ∃ e outer, opened = e :: outer ∧ depth = names.length ∧ NamedAs outer names := by
  cases h with
  | outside hp => simp [Phase.IsProlog] at hp
  | @inTag _ e outer _ hd ho => exact ⟨e, outer, rfl, hd, ho⟩

/-- The phase after a tag that leaves the given elements open. -/
private theorem NamedAs.agree_phaseAt {depth : Nat} {opened : OpenElements} {names : List ElementName}
    (h : NamedAs opened names) (hd : depth = names.length) : Agree (Lexer.phaseAt depth) opened names := by
  subst hd
  cases h with
  | nil => exact .outside (.inr rfl)
  | cons huri houter => exact .content rfl (by simp) (.cons huri houter)

/-! ### One token -/

/-- What a token opens and closes is what its events say. -/
theorem Agree.takeToken {r : Reader} {p q : Phase} {t : Token} {names : List ElementName} {opened : OpenElements}
    {entities : Entities} {events : List Event} (hr : Agree p r.opened names) (hgo : p.Goes t q)
    (h : r.takeToken t = .ok (opened, entities, events)) :
    ∃ names', Content names events names' ∧ Agree q opened names' := by
  have htakes := Reader.takes_of_takeToken h
  cases hgo with
  | prolog hp hq =>
    obtain ⟨ho, rfl⟩ := hr.of_outside (.inl hp)
    cases htakes
    rw [ho]
    exact ⟨[], .nil [], .outside (.inl hq)⟩
  | entity name value =>
    obtain ⟨ho, rfl⟩ := hr.of_outside (.inl trivial)
    cases htakes
    rw [ho]
    exact ⟨[], .nil [], .outside (.inl trivial)⟩
  | root hp hd name span =>
    obtain ⟨ho, rfl⟩ := hr.of_outside (.inl hp)
    cases htakes
    rw [ho]
    exact ⟨[], .nil [], .inTag rfl .nil⟩
  | attr depth name value =>
    obtain ⟨e, outer, ho, hd, hn⟩ := hr.of_inTag
    cases htakes with
    | strayAttr hnone => simp [ho] at hnone
    | attr ho' =>
      obtain ⟨rfl, rfl⟩ := List.cons.inj (ho.symm.trans ho')
      exact ⟨names, .nil names, .inTag hd hn⟩
  | openEnd depth =>
    obtain ⟨e, outer, ho, hd, hn⟩ := hr.of_inTag
    cases htakes with
    | strayOpenEnd hnone => simp [ho] at hnone
    | openEnd ho' hs =>
      obtain ⟨rfl, rfl⟩ := List.cons.inj (ho.symm.trans ho')
      obtain ⟨cs, attributes, hcs, -, rfl, rfl, rfl⟩ := Reader.startElement_eq_ok hs
      rw [ho] at hcs
      exact ⟨_, .singleton rfl (by simp), .content (by simp [hd]) (by simp) (.cons hcs hn)⟩
  | emptyEnd depth =>
    obtain ⟨e, outer, ho, hd, hn⟩ := hr.of_inTag
    cases htakes with
    | strayEmptyEnd hnone => simp [ho] at hnone
    | emptyEnd ho' hs =>
      obtain ⟨rfl, rfl⟩ := List.cons.inj (ho.symm.trans ho')
      obtain ⟨cs, attributes, -, -, rfl, rfl, rfl⟩ := Reader.startElement_eq_ok hs
      exact ⟨names, .emptyElement .., hn.agree_phaseAt hd⟩
  | aside depth =>
    cases htakes
    exact ⟨names, .nil names, hr⟩
  | text depth content =>
    obtain ⟨hd, hn, ho⟩ := hr.of_content
    cases htakes
    exact ⟨names, .singleton rfl fun _ _ => hn, hr⟩
  | cdata depth content =>
    obtain ⟨hd, hn, ho⟩ := hr.of_content
    cases htakes
    exact ⟨names, .singleton rfl fun _ _ => hn, hr⟩
  | child depth name span =>
    obtain ⟨hd, hn, ho⟩ := hr.of_content
    cases htakes
    exact ⟨names, .nil names, .inTag hd ho⟩
  | close depth name span =>
    obtain ⟨hd, hn, ho⟩ := hr.of_content
    cases htakes with
    | closeTag _ ho' hname huri =>
      rw [ho'] at ho huri
      cases ho with
      | cons huri' houter =>
        -- The event takes its name from the end tag, but its URI from the qualifier of the start tag.
        obtain rfl := Except.ok.inj (huri.symm.trans huri')
        rw [(QName.sameAs_iff.1 hname).2]
        exact ⟨_, .singleton (if_pos rfl) (by simp), houter.agree_phaseAt (by simp [hd])⟩
  | epilog =>
    cases htakes
    exact ⟨names, .nil names, hr⟩

end MapMarkup.Xml
