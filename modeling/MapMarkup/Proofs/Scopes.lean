import MapMarkup.Proofs.Failures
import MapMarkup.Proofs.OpenTags
import MapMarkup.Proofs.Rereading
import MapMarkup.Proofs.Substitution
import MapMarkup.Proofs.TagEnds

/-!
# What qualifiers stand for

Whether a qualifier is declared, and as what, can be told from the tokens that have been read: the declaration that
counts is that of the nearest element that declares the qualifier among those that are still open, and in its start tag
the first one (`InScope`). What an element keeps of its start tag agrees with this (`Leads.binding?_eq_some_iff`). So at
the end of each start tag the names of the element and of its attributes are resolved by the declarations in scope, or
the call fails at the first qualifier that has none (`Reader.call_of_startTag`).
-/

namespace MapMarkup.Xml

/-! ### Declarations -/

/-- Whether an attribute of this name declares the qualifier: `xmlns:q` declares `q`, and `xmlns` the empty one. -/
def QName.declares (n : QName) (q : List Char) : Bool :=
  if n.qualifier.chars = "xmlns".toList then n.base.chars = q
  else n.qualifier.chars = [] && n.base.chars = "xmlns".toList && q = []

/-- The value of the first attribute that declares the qualifier, among those with which the tokens start. -/
def declared? (q : List Char) : List Token → Option (List Char)
  | .attribute name value :: ts => if name.declares q then some value.chars else declared? q ts
  | _ => none

/-- The nearest open element that declares the qualifier declares it as `uri`. -/
def InScope (ts : List Token) (q uri : List Char) : Prop :=
  ∃ later, LeavesOpen ts later ∧ declared? q later = some uri ∧
    ∀ inner, LeavesOpen later inner → declared? q inner = none

variable {ts us : List Token} {q uri : List Char}

/-- The attributes of a tag end where another token follows. -/
private theorem declared?_append (h : ∀ name value, us.head? ≠ some (.attribute name value)) :
    declared? q (ts ++ us) = declared? q ts := by
  induction ts with
  | nil =>
    rcases us with _ | ⟨t, us⟩
    · rfl
    · cases t with
      | «attribute» name value => exact absurd rfl (h name value)
      | _ => rfl
  | cons t ts ih =>
    cases t with
    | «attribute» name value => simp only [List.cons_append, declared?, ih]
    | _ => rfl

private theorem leavesOpen_append_of_balanced {later : List Token} (hus : Balanced us) :
    LeavesOpen (ts ++ us) later ↔ ∃ inner, LeavesOpen ts inner ∧ later = inner ++ us :=
  (leavesOpen_append_iff hus.keeps).trans (or_iff_left hus.not_leavesOpen)

/-- What closes all that it opens does not matter for what comes after it. -/
private theorem inScope_append_of_balanced (hus : Balanced us)
    (h : ∀ name value, us.head? ≠ some (.attribute name value)) :
    InScope (ts ++ us) q uri ↔ InScope ts q uri := by
  constructor
  · rintro ⟨later, hlater, hdeclared, hnearest⟩
    obtain ⟨inner, hinner, rfl⟩ := (leavesOpen_append_of_balanced hus).1 hlater
    refine ⟨inner, hinner, by rwa [declared?_append h] at hdeclared, fun nested hnested => ?_⟩
    rw [← declared?_append h]
    exact hnearest _ ((leavesOpen_append_of_balanced hus).2 ⟨nested, hnested, rfl⟩)
  · rintro ⟨later, hlater, hdeclared, hnearest⟩
    refine ⟨later ++ us, (leavesOpen_append_of_balanced hus).2 ⟨later, hlater, rfl⟩, ?_, fun nested hnested => ?_⟩
    · rwa [declared?_append h]
    · obtain ⟨inner, hinner, rfl⟩ := (leavesOpen_append_of_balanced hus).1 hnested
      rw [declared?_append h]
      exact hnearest inner hinner

private theorem Balanced.not_inScope (h : Balanced ts) : ¬ InScope ts q uri :=
  fun ⟨_, hlater, _⟩ => h.not_leavesOpen hlater

section Tags

variable (name : QName) (span : Span) (tag : List RawAttribute)

/-- A start tag that is being read has its element open, and nothing inside it. -/
private theorem leavesOpen_append_tag {later : List Token} :
    LeavesOpen (ts ++ .elementStart name span :: tag.map RawAttribute.token) later ↔
      (∃ inner, LeavesOpen ts inner ∧ later = inner ++ .elementStart name span :: tag.map RawAttribute.token) ∨
        later = tag.map RawAttribute.token := by
  have hclosed : Keeps ((.elementStart name span :: tag.map RawAttribute.token) ++ [.emptyEnd]) :=
    ((balanced_tag tag).element name span rfl).keeps
  have hkeeps := hclosed.left
  refine (leavesOpen_append_iff hkeeps).trans (or_congr_right ⟨?_, ?_⟩)
  · rintro ⟨before, name', span', h, hlater⟩
    rcases before with _ | ⟨t, before⟩
    · exact (List.cons.inj h).2.symm
    · exact absurd ⟨before, name', span', (List.cons.inj h).2, hlater⟩ (balanced_tag tag).not_leavesOpen
  · rintro rfl
    exact ⟨[], name, span, rfl, (balanced_tag tag).keeps⟩

/-- In a start tag, its own declarations come before those of the elements around it. -/
private theorem inScope_append_tag :
    InScope (ts ++ .elementStart name span :: tag.map RawAttribute.token) q uri ↔
      declared? q (tag.map RawAttribute.token) = some uri ∨
        declared? q (tag.map RawAttribute.token) = none ∧ InScope ts q uri := by
  have hhead : ∀ inner, declared? q (inner ++ .elementStart name span :: tag.map RawAttribute.token) =
      declared? q inner := fun inner => declared?_append (by simp)
  constructor
  · rintro ⟨later, hlater, hdeclared, hnearest⟩
    rcases (leavesOpen_append_tag name span tag).1 hlater with ⟨inner, hinner, rfl⟩ | rfl
    · refine .inr ⟨hnearest _ ((leavesOpen_append_tag name span tag).2 (.inr rfl)), inner, hinner, ?_, ?_⟩
      · rwa [hhead] at hdeclared
      · intro nested hnested
        rw [← hhead]
        exact hnearest _ ((leavesOpen_append_tag name span tag).2 (.inl ⟨nested, hnested, rfl⟩))
    · exact .inl hdeclared
  · rintro (hdeclared | ⟨hnone, later, hlater, hdeclared, hnearest⟩)
    · exact ⟨_, (leavesOpen_append_tag name span tag).2 (.inr rfl), hdeclared,
        fun inner hinner => absurd hinner (balanced_tag tag).not_leavesOpen⟩
    · refine ⟨_, (leavesOpen_append_tag name span tag).2 (.inl ⟨later, hlater, rfl⟩), by rwa [hhead], ?_⟩
      intro nested hnested
      rcases (leavesOpen_append_tag name span tag).1 hnested with ⟨inner, hinner, rfl⟩ | rfl
      · rw [hhead]
        exact hnearest inner hinner
      · exact hnone

/-! ### What an element keeps of its tag -/

variable (e : OpenElement) (value : Passage)

private theorem OpenElement.lookup_addAttribute (q : List Char) :
    List.lookup q (e.addAttribute name value).bindings =
      (List.lookup q e.bindings).or (if name.declares q then some value.chars else none) := by
  have hlookup : ∀ declared : List Char, List.lookup q (e.bindings ++ [(declared, value.chars)]) =
      (List.lookup q e.bindings).or (if declared = q then some value.chars else none) := by
    intro declared
    rw [List.lookup_append]
    by_cases h : declared = q
    · simp [h]
    · have hb : (q == declared) = false := beq_false_of_ne (Ne.symm h)
      simp [List.lookup_cons, hb, h]
  unfold addAttribute QName.declares
  by_cases hxmlns : name.qualifier.chars = "xmlns".toList
  · simp only [hxmlns, ↓reduceIte, hlookup, decide_eq_true_eq]
  · by_cases hdefault : (name.qualifier.chars = [] && name.base.chars = "xmlns".toList) = true
    · simp only [hxmlns, hdefault, ↓reduceIte, hlookup, Bool.true_and, decide_eq_true_eq, eq_comm (a := q)]
    · simp only [hxmlns, hdefault, ↓reduceIte, Bool.false_eq_true, Bool.false_and, Option.or_none]

private theorem OpenElement.attributes_addAttribute :
    (e.addAttribute name value).attributes =
      e.attributes ++ [(⟨name, value⟩ : RawAttribute)].filter (!·.name.isDeclaration) := by
  unfold addAttribute QName.isDeclaration
  by_cases hxmlns : name.qualifier.chars = "xmlns".toList
  · simp only [hxmlns, ↓reduceIte, List.filter_cons, List.filter_nil, decide_true, Bool.true_or, Bool.not_true,
      Bool.false_eq_true, List.append_nil]
  · by_cases hdefault : (name.qualifier.chars = [] && name.base.chars = "xmlns".toList) = true
    · simp only [hxmlns, hdefault, ↓reduceIte, List.filter_cons, List.filter_nil, Bool.or_true, Bool.not_true,
        Bool.false_eq_true, List.append_nil]
    · simp only [hxmlns, hdefault, ↓reduceIte, List.filter_cons, List.filter_nil, decide_false, Bool.or_false,
        Bool.not_false, Bool.false_eq_true]

private theorem OpenElement.name_addAttribute : (e.addAttribute name value).name = e.name := by
  unfold addAttribute
  split
  · rfl
  · split <;> rfl

/-- The element after more attributes of its tag. -/
private theorem foldl_addAttribute (e : OpenElement) :
    let e' := tag.foldl (fun e a => e.addAttribute a.name a.value) e
    e'.name = e.name ∧ e'.attributes = e.attributes ++ tag.filter (!·.name.isDeclaration) ∧
      ∀ q, List.lookup q e'.bindings = (List.lookup q e.bindings).or (declared? q (tag.map RawAttribute.token)) := by
  induction tag generalizing e with
  | nil => simp [declared?]
  | cons a tag ih =>
    obtain ⟨hname, hattributes, hbindings⟩ := ih (e.addAttribute a.name a.value)
    refine ⟨hname.trans (e.name_addAttribute a.name a.value), ?_, fun q => (hbindings q).trans ?_⟩
    · rw [List.foldl_cons, hattributes, OpenElement.attributes_addAttribute, List.append_assoc, ← List.filter_append]
      rfl
    · rw [OpenElement.lookup_addAttribute, Option.or_assoc]
      simp only [List.map_cons, RawAttribute.token, declared?]
      split <;> simp

theorem OpenElement.name_ofTag : (ofTag name span tag).name = name :=
  (foldl_addAttribute tag _).1

theorem OpenElement.attributes_ofTag : (ofTag name span tag).attributes = tag.filter (!·.name.isDeclaration) :=
  (foldl_addAttribute tag _).2.1

private theorem OpenElement.lookup_ofTag (q : List Char) :
    List.lookup q (ofTag name span tag).bindings = declared? q (tag.map RawAttribute.token) :=
  (foldl_addAttribute tag _).2.2 q

end Tags

/-- The open elements know the declarations in scope. -/
theorem Leads.binding?_eq_some_iff {p : Phase} {opened : OpenElements} (h : Leads ts p opened) :
    opened.binding? q = some uri ↔ InScope ts q uri := by
  induction h with
  | outside _ hts => simp [OpenElements.binding?, hts.not_inScope]
  | inTag hbefore _ _ name span tag ih =>
    rw [inScope_append_tag, ← ih, ← OpenElement.lookup_ofTag name span tag]
    unfold OpenElements.binding?
    rw [List.findSome?_cons]
    cases List.lookup q (OpenElement.ofTag name span tag).bindings <;> simp
  | content htag hgap ih =>
    have hend : Balanced (.openEnd :: ‹List Token›) := (Balanced.singleton (t := .openEnd) rfl).append hgap
    rw [inScope_append_of_balanced hend (by simp), ih]

/-! ### Names -/

/-- The qualifier means nothing: it is not declared in scope, and it is none of the two that need no declaration. -/
def Undefined (ts : List Token) (q : List Char) : Prop :=
  q ≠ [] ∧ q ≠ "xml".toList ∧ ∀ uri, ¬ InScope ts q uri

/-- The namespace that a qualifier stands for. -/
def StandsFor (ts : List Token) (q uri : List Char) : Prop :=
  if q = "xml".toList then uri = xmlNamespace
  else InScope ts q uri ∨ q = [] ∧ (∀ uri', ¬ InScope ts q uri') ∧ uri = []

/-- What an attribute says: its namespace, which is none if it has no qualifier, its name and its expanded value. -/
def RawAttribute.Means (ts : List Token) (entities : Entities) (a : RawAttribute) (b : Attribute) : Prop :=
  ∃ uri text, (if a.name.qualifier.chars = [] then uri = [] else StandsFor ts a.name.qualifier.chars uri) ∧
    entities.expand .attributeValue a.value = .ok text ∧
    b = ⟨.ofList uri, .ofList a.name.base.chars, .ofList text, uri = xmlNamespace && a.name.base.chars = "id".toList⟩

/-- The first qualifier without a meaning is `p`, be it that of the element or that of an attribute; the values of the
attributes before it can be expanded. -/
def FirstUndefined (ts : List Token) (entities : Entities) (name : QName) (attributes : List RawAttribute)
    (p : Passage) : Prop :=
  Undefined ts name.qualifier.chars ∧ p = name.qualifier ∨
  ¬ Undefined ts name.qualifier.chars ∧ ∃ before a after, attributes = before ++ a :: after ∧
    Undefined ts a.name.qualifier.chars ∧ p = a.name.qualifier ∧
    ∀ b ∈ before, ¬ Undefined ts b.name.qualifier.chars ∧ ∃ text, entities.expand .attributeValue b.value = .ok text

section Names

variable {opened : OpenElements} {p : Passage} {e : ReadError}

theorem namespaceOf_eq_ok_iff (hscope : ∀ q uri, opened.binding? q = some uri ↔ InScope ts q uri) :
    opened.namespaceOf p = .ok uri ↔ StandsFor ts p.chars uri := by
  unfold OpenElements.namespaceOf StandsFor
  simp only [← hscope, ← Option.eq_none_iff_forall_ne_some]
  by_cases hempty : p.chars = []
  · have hxml : ([] : List Char) ≠ "xml".toList := by decide
    rw [hempty, if_pos rfl, if_neg hxml]
    cases opened.binding? [] <;> simp [eq_comm]
  · rw [if_neg hempty]
    by_cases hxml : p.chars = "xml".toList
    · rw [if_pos hxml, if_pos hxml, Except.ok.injEq, eq_comm]
    · rw [if_neg hxml, if_neg hxml]
      cases opened.binding? p.chars <;> simp [hempty]

private theorem namespaceOf_eq_error_iff (hscope : ∀ q uri, opened.binding? q = some uri ↔ InScope ts q uri) :
    opened.namespaceOf p = .error e ↔ Undefined ts p.chars ∧ e = .undefinedQualifier p := by
  unfold OpenElements.namespaceOf Undefined
  simp only [← hscope, ← Option.eq_none_iff_forall_ne_some]
  by_cases hempty : p.chars = []
  · simp [hempty]
  · rw [if_neg hempty, and_iff_right hempty]
    by_cases hxml : p.chars = "xml".toList
    · rw [if_pos hxml]
      simp only [hxml, reduceCtorEq, ne_eq, not_true_eq_false, false_and]
    · rw [if_neg hxml, and_iff_right hxml]
      cases opened.binding? p.chars <;> simp [eq_comm]

end Names

/-! ### Errors of texts -/

private theorem expand_ne_undefinedQualifier (entities : Entities) (context : Context) (content p : Passage) :
    entities.expand context content ≠ .error (.undefinedQualifier p) := by
  rw [Substitution.expand_eq_apply]
  exact Substitution.isAboutReference_of_apply _

private theorem replacementText_ne_undefinedQualifier (value p : Passage) :
    replacementText value ≠ .error (.undefinedQualifier p) := by
  rw [Substitution.replacementText_eq_apply]
  exact Substitution.isAboutReference_of_apply _

namespace Reader

/-! ### Start tags -/

section Start

variable {r : Reader} (hscope : ∀ q uri, r.opened.binding? q = some uri ↔ InScope ts q uri)

include hscope

private theorem resolveAttribute_eq_ok_iff {a : RawAttribute} {b : Attribute} :
    r.resolveAttribute a = .ok b ↔ a.Means ts r.entities b := by
  have huri : ∀ uri, r.opened.namespaceOfAttribute a.name.qualifier = .ok uri ↔
      if a.name.qualifier.chars = [] then uri = [] else StandsFor ts a.name.qualifier.chars uri := by
    intro uri
    unfold OpenElements.namespaceOfAttribute
    split
    · rw [Except.ok.injEq, eq_comm]
    · exact namespaceOf_eq_ok_iff hscope
  constructor
  · intro h
    obtain ⟨uri, hu, h⟩ := exists_of_bind_eq_ok h
    obtain ⟨text, htext, h⟩ := exists_of_bind_eq_ok h
    exact ⟨uri, text, (huri uri).1 hu, htext, (Except.ok.inj h).symm⟩
  · rintro ⟨uri, text, hu, htext, rfl⟩
    unfold resolveAttribute
    rw [(huri uri).2 hu, htext]
    rfl

private theorem resolveAttribute_eq_error_iff {a : RawAttribute} {p : Passage} :
    r.resolveAttribute a = .error (.undefinedQualifier p) ↔
      Undefined ts a.name.qualifier.chars ∧ p = a.name.qualifier := by
  have huri : r.opened.namespaceOfAttribute a.name.qualifier = .error (.undefinedQualifier p) ↔
      Undefined ts a.name.qualifier.chars ∧ p = a.name.qualifier := by
    unfold OpenElements.namespaceOfAttribute
    split
    · rename_i hempty
      simp [Undefined, hempty]
    · rw [namespaceOf_eq_error_iff hscope, ReadError.undefinedQualifier.injEq]
  refine bind_eq_error_iff.trans ((or_iff_left ?_).trans huri)
  rintro ⟨uri, -, h⟩
  rcases bind_eq_error_iff.1 h with h | ⟨text, -, h⟩
  · exact expand_ne_undefinedQualifier _ _ _ _ h
  · simp [pure, Except.pure] at h

/-- An attribute can be resolved if its qualifier means something and its value can be expanded. -/
private theorem exists_resolveAttribute_iff {a : RawAttribute} :
    (∃ b, r.resolveAttribute a = .ok b) ↔
      ¬ Undefined ts a.name.qualifier.chars ∧ ∃ text, r.entities.expand .attributeValue a.value = .ok text := by
  constructor
  · rintro ⟨b, hb⟩
    refine ⟨fun hundefined => ?_, ?_⟩
    · have := (resolveAttribute_eq_error_iff hscope).2 ⟨hundefined, rfl⟩
      simp [hb] at this
    · obtain ⟨uri, text, -, htext, -⟩ := (resolveAttribute_eq_ok_iff hscope).1 hb
      exact ⟨text, htext⟩
  · rintro ⟨hdefined, text, htext⟩
    cases ha : r.resolveAttribute a with
    | ok b => exact ⟨b, rfl⟩
    | error e =>
      rcases bind_eq_error_iff.1 ha with hu | ⟨uri, -, h⟩
      · unfold OpenElements.namespaceOfAttribute at hu
        split at hu
        · simp at hu
        · exact absurd ((namespaceOf_eq_error_iff hscope).1 hu).1 hdefined
      · rw [htext] at h
        simp [bind, Except.bind, pure, Except.pure] at h

private theorem exists_namespaceOf_iff {p : Passage} :
    (∃ uri, r.opened.namespaceOf p = .ok uri) ↔ ¬ Undefined ts p.chars := by
  constructor
  · rintro ⟨uri, huri⟩ hundefined
    have := (namespaceOf_eq_error_iff hscope).2 ⟨hundefined, rfl⟩
    simp [huri] at this
  · intro hdefined
    cases hp : r.opened.namespaceOf p with
    | ok uri => exact ⟨uri, rfl⟩
    | error e => exact absurd ((namespaceOf_eq_error_iff hscope).1 hp).1 hdefined

theorem startElement_of_eq_ok {e : OpenElement} {uri name : String} {event : Event}
    (h : r.startElement e = .ok (uri, name, event)) :
    ∃ cs attributes, StandsFor ts e.name.qualifier.chars cs ∧
      List.Forall₂ (RawAttribute.Means ts r.entities) e.attributes attributes ∧
      uri = .ofList cs ∧ name = .ofList e.name.base.chars ∧ event = .startElement r.locator uri name attributes := by
  obtain ⟨cs, attributes, hcs, hattributes, rfl, rfl, rfl⟩ := startElement_eq_ok h
  refine ⟨cs, attributes, (namespaceOf_eq_ok_iff hscope).1 hcs, ?_, rfl, rfl, rfl⟩
  exact (mapM_eq_ok_iff.1 hattributes).imp fun a b => (resolveAttribute_eq_ok_iff hscope).1

theorem exists_startElement_iff {e : OpenElement} :
    (∃ started, r.startElement e = .ok started) ↔ ¬ Undefined ts e.name.qualifier.chars ∧
      ∀ a ∈ e.attributes, ¬ Undefined ts a.name.qualifier.chars ∧
        ∃ text, r.entities.expand .attributeValue a.value = .ok text := by
  simp only [← exists_resolveAttribute_iff hscope]
  rw [← exists_namespaceOf_iff hscope, ← exists_mapM_eq_ok_iff]
  constructor
  · rintro ⟨⟨uri, name, event⟩, h⟩
    obtain ⟨cs, attributes, hcs, hattributes, -⟩ := startElement_eq_ok h
    exact ⟨⟨cs, hcs⟩, attributes, hattributes⟩
  · rintro ⟨⟨cs, hcs⟩, attributes, hattributes⟩
    unfold startElement
    rw [hcs, hattributes]
    exact ⟨_, rfl⟩

theorem startElement_eq_error_iff {e : OpenElement} {p : Passage} :
    r.startElement e = .error (.undefinedQualifier p) ↔ FirstUndefined ts r.entities e.name e.attributes p := by
  have hname : r.opened.namespaceOf e.name.qualifier = .error (.undefinedQualifier p) ↔
      Undefined ts e.name.qualifier.chars ∧ p = e.name.qualifier := by
    rw [namespaceOf_eq_error_iff hscope, ReadError.undefinedQualifier.injEq]
  have hattributes : e.attributes.mapM r.resolveAttribute = .error (.undefinedQualifier p) ↔
      ∃ before a after, e.attributes = before ++ a :: after ∧ Undefined ts a.name.qualifier.chars ∧
        p = a.name.qualifier ∧ ∀ b ∈ before, ¬ Undefined ts b.name.qualifier.chars ∧
          ∃ text, r.entities.expand .attributeValue b.value = .ok text := by
    simp only [mapM_eq_error_iff, exists_resolveAttribute_iff hscope, resolveAttribute_eq_error_iff hscope]
    refine exists_congr fun before => exists_congr fun a => exists_congr fun after => and_congr_right fun _ => ?_
    rw [and_comm, and_assoc]
  unfold startElement FirstUndefined
  rw [bind_eq_error_iff, hname, ← hattributes]
  refine or_congr_right ⟨?_, ?_⟩
  · rintro ⟨cs, hcs, h⟩
    refine ⟨(exists_namespaceOf_iff hscope).1 ⟨cs, hcs⟩, ?_⟩
    rcases bind_eq_error_iff.1 h with h | ⟨attributes, -, h⟩
    · exact h
    · simp [pure, Except.pure] at h
  · rintro ⟨hdefined, h⟩
    obtain ⟨cs, hcs⟩ := (exists_namespaceOf_iff hscope).2 hdefined
    exact ⟨cs, hcs, bind_eq_error_iff.2 (.inl h)⟩

end Start

/-! ### Calls -/

/-- The calls before number `k` have read tokens, and this one comes to the end of a start tag. -/
def AtTagEnd (r : Reader) (k : Nat) : Prop :=
  (∀ j < k, (r.call j).2 = .token) ∧
    ∃ t lexer, (r.afterCalls k).lexer.next? = .ok (some (t, lexer)) ∧ (t = .openEnd ∨ t = .emptyEnd)

/-- At the end of a start tag the element is started, and ended if the tag is that of an empty element, or else the token
fails as the start of the element does. -/
theorem takeToken_of_tagEnd {r : Reader} {t : Token} {e : OpenElement} {outer : OpenElements}
    (ho : r.opened = e :: outer) (ht : t = .openEnd ∨ t = .emptyEnd) :
    match r.startElement e with
    | .ok (uri, name, event) => ∃ opened closing, r.takeToken t = .ok (opened, r.entities, event :: closing) ∧
      (closing = [] ∨ closing = [.endElement r.locator uri name])
    | .error e' => r.takeToken t = .error e' := by
  cases hstart : r.startElement e with
  | error e' => rcases ht with rfl | rfl <;> simp [takeToken, ho, hstart, bind, Except.bind]
  | ok started =>
    obtain ⟨uri, name, event⟩ := started
    rcases ht with rfl | rfl
    · exact ⟨e :: outer, [], by simp [takeToken, ho, hstart, bind, Except.bind, pure, Except.pure], .inl rfl⟩
    · exact ⟨outer, [.endElement r.locator uri name],
        by simp [takeToken, ho, hstart, bind, Except.bind, pure, Except.pure], .inr rfl⟩

/-- Only at the end of a start tag may a qualifier turn out to mean nothing. At an end tag it has had its meaning
before. -/
private theorem tagEnd_of_undefinedQualifier {r : Reader} {phase phase' : Phase} {names : List ElementName} {t : Token}
    {p : Passage} (hr : Agree phase r.opened names) (hgo : phase.Goes t phase')
    (h : r.takeToken t = .error (.undefinedQualifier p)) : t = .openEnd ∨ t = .emptyEnd := by
  cases t with
  | openEnd => exact .inl rfl
  | emptyEnd => exact .inr rfl
  | aside | elementStart | cdata => simp [takeToken] at h
  | entity name value =>
    cases value with
    | none => simp [takeToken] at h
    | some value =>
      rcases bind_eq_error_iff.1 h with h | ⟨text, -, h⟩
      · exact absurd h (replacementText_ne_undefinedQualifier value p)
      · simp [pure, Except.pure] at h
  | «attribute» name value =>
    simp only [takeToken] at h
    split at h <;> simp at h
  | text content =>
    rcases bind_eq_error_iff.1 h with h | ⟨text, -, h⟩
    · exact absurd h (expand_ne_undefinedQualifier _ _ _ _)
    · simp [pure, Except.pure] at h
  | closeTag name span =>
    obtain ⟨depth, rfl⟩ := hgo.exists_of_closeTag
    obtain ⟨e, outer, uri, outerNames, ho, -, huri, -⟩ := hr.exists_innermost
    rw [takeToken_closeTag ho huri] at h
    split at h <;> simp at h

theorem exists_agree (source : List Char) (systemId : Option String) (k : Nat) :
    ∃ names, Agree ((start source systemId).afterCalls k).lexer.phase ((start source systemId).afterCalls k).opened
      names := by
  cases k with
  | zero => exact ⟨[], .outside (.inl trivial)⟩
  | succ k =>
    obtain ⟨-, opened, -, hagree, -⟩ := account source systemId k
    exact ⟨opened, hagree⟩

variable {source : List Char} {systemId : Option String} {k : Nat}

/-- A call that starts an element comes to the end of a start tag. -/
theorem atTagEnd_of_start {locator : Locator} {uri name : String} {attributes : Attributes} :
    let r := start source systemId
    .startElement locator uri name attributes ∈ (r.call k).1 → r.AtTagEnd k := by
  intro r h
  have htoken : (r.call k).2 = .token := by
    by_contra hne
    have := (afterCalls_succ_of_ne_token hne).2 _ h
    simp [Event.locator?] at this
  obtain ⟨t, lexer, opened, entities, events, -, hl, htake, hevents, -⟩ := exists_of_call_token htoken
  refine ⟨before_of_call_token htoken, t, lexer, hl, ?_⟩
  have hmem : .startElement locator uri name attributes ∈ events := by
    rw [hevents, List.mem_append] at h
    refine h.resolve_left fun h => ?_
    simpa [Event.locator?] using locator?_of_mem_opening h
  cases takes_of_takeToken htake with
  | strayOpenEnd | openEnd => exact .inl rfl
  | strayEmptyEnd | emptyEnd => exact .inr rfl
  | _ => simp at hmem

/-- A call that fails for a qualifier comes to the end of a start tag. -/
private theorem atTagEnd_of_undefinedQualifier {p : Passage} :
    let r := start source systemId
    (r.call k).2 = .failed (.undefinedQualifier p) → r.AtTagEnd k := by
  intro r h
  refine ⟨(stopsAt_of_failed h).before, ?_⟩
  rcases failure_cases h with ⟨malformed, -, he⟩ | ⟨-, element, outer, -, he⟩ | ⟨t, lexer, hl, ht⟩
  · simp at he
  · simp at he
  · obtain ⟨names, hagree⟩ := exists_agree source systemId k
    have hr : Agree (r.afterCalls k).lexer.phase ({ r.afterCalls k with lexer } : Reader).opened names := hagree
    exact ⟨t, lexer, hl, tagEnd_of_undefinedQualifier hr (Lexer.goes_of_next? hl) ht⟩

/-- At the end of a start tag, the tokens end in the start tag, and the reader knows the declarations in scope. -/
theorem AtTagEnd.exists_tag (h : (start source systemId).AtTagEnd k) :
    let r := start source systemId
    let ts := r.tokensOfCalls k
    ∃ before name span tag outer, ts = before ++ .elementStart name span :: tag.map RawAttribute.token ∧
      (r.afterCalls k).opened = .ofTag name span tag :: outer ∧ (r.afterCalls k).stage = .reading ∧
      ∀ q uri, (r.afterCalls k).opened.binding? q = some uri ↔ InScope ts q uri := by
  intro r ts
  obtain ⟨hbefore, t, lexer, hl, ht⟩ := h
  have hleads := leads_afterCalls hbefore
  obtain ⟨depth, hphase⟩ := (Lexer.goes_of_next? hl).exists_of_tagEnd ht
  rw [hphase] at hleads
  obtain ⟨before, p, outer, name, span, tag, hts, ho, -⟩ := hleads.of_inTag
  refine ⟨before, name, span, tag, outer, hts, ho, ?_, fun q uri => hleads.binding?_eq_some_iff⟩
  cases k with
  | zero => simp [afterCalls, start, Lexer.start] at hphase
  | succ k => exact stage_of_token (hbefore k (Nat.lt_succ_self k))

/-- Elements are started at the ends of start tags only, and only there is there an error about a qualifier. At the end
of a start tag, the element, which also ends there if it is empty, and its attributes other than declarations are given
the namespaces that their qualifiers stand for by the declarations in scope, those of the tag itself included. This
fails if and only if one of the qualifiers means nothing or one of the values cannot be expanded; the error is about a
qualifier if the first failure is, and names it. -/
theorem call_of_startTag (source : List Char) (systemId : Option String) (k : Nat) :
    let r : Reader := start source systemId
    let ts := r.tokensOfCalls k
    let entities := (r.afterCalls k).entities
    ((∃ locator uri name attributes, .startElement locator uri name attributes ∈ (r.call k).1) ∨
      (∃ p, (r.call k).2 = .failed (.undefinedQualifier p)) → r.AtTagEnd k) ∧
    (r.AtTagEnd k → ∃ before name span, ∃ tag : List RawAttribute,
      ts = before ++ .elementStart name span :: tag.map RawAttribute.token ∧
      let written := tag.filter (!·.name.isDeclaration)
      ((r.call k).2 = .token ↔ ¬ Undefined ts name.qualifier.chars ∧
        ∀ a ∈ written, ¬ Undefined ts a.name.qualifier.chars ∧
          ∃ text, entities.expand .attributeValue a.value = .ok text) ∧
      ((r.call k).2 = .token → ∃ locator uri attributes closing,
        (r.call k).1 = .startElement locator (.ofList uri) (.ofList name.base.chars) attributes :: closing ∧
          (closing = [] ∨ closing = [.endElement locator (.ofList uri) (.ofList name.base.chars)]) ∧
          StandsFor ts name.qualifier.chars uri ∧
          List.Forall₂ (RawAttribute.Means ts entities) written attributes) ∧
      ∀ p, (r.call k).2 = .failed (.undefinedQualifier p) ↔ FirstUndefined ts entities name written p) := by
  intro r ts entities
  constructor
  · rintro (⟨locator, uri, name, attributes, h⟩ | ⟨p, h⟩)
    · exact atTagEnd_of_start h
    · exact atTagEnd_of_undefinedQualifier h
  · intro h
    obtain ⟨before, name, span, tag, outer, hts, ho, hstage, hscope⟩ := h.exists_tag
    obtain ⟨-, t, lexer, hl, ht⟩ := h
    refine ⟨before, name, span, tag, hts, ?_⟩
    have hs : (r.afterCalls k).stage ≠ .finished := by
      rw [hstage]
      simp
    have hopening : (r.afterCalls k).opening = [] := by
      rw [opening, hstage]
      rfl
    -- What the end of the tag gives is decided by the reader behind it.
    let past : Reader := { r.afterCalls k with lexer }
    let e := OpenElement.ofTag name span tag
    have hpast : past.opened = e :: outer := ho
    have hstart := takeToken_of_tagEnd hpast ht
    have hpastScope : ∀ q uri, past.opened.binding? q = some uri ↔ InScope ts q uri := hscope
    have hok := exists_startElement_iff hpastScope (e := e)
    have herror := fun p => startElement_eq_error_iff hpastScope (e := e) (p := p)
    simp only [e, OpenElement.name_ofTag, OpenElement.attributes_ofTag] at hok herror
    cases hstarted : past.startElement e with
    | error e' =>
      rw [hstarted] at hstart
      have hcall : (r.call k).2 = .failed e' := congrArg (·.2.2) (advance_of_failed hs hl hstart)
      refine ⟨?_, ?_, fun p => ?_⟩
      · rw [hcall, ← hok, hstarted]
        simp
      · simp [hcall]
      · rw [hcall, ← herror p, hstarted, Outcome.failed.injEq, Except.error.injEq]
    | ok started =>
      obtain ⟨uri, name', event⟩ := started
      rw [hstarted] at hstart
      obtain ⟨opened, closing, htake, hclosing⟩ := hstart
      have hcall : r.call k = (event :: closing, .token) := by
        have := congrArg Prod.snd (advance_of_token hs hl htake)
        rwa [hopening] at this
      refine ⟨?_, fun _ => ?_, fun p => ?_⟩
      · rw [hcall, ← hok, hstarted]
        simp
      · obtain ⟨cs, attributes, hcs, hattributes, rfl, rfl, rfl⟩ := startElement_of_eq_ok hpastScope hstarted
        simp only [e, OpenElement.name_ofTag, OpenElement.attributes_ofTag] at hcs hattributes hcall hclosing
        exact ⟨past.locator, cs, attributes, closing, by rw [hcall], hclosing, hcs, hattributes⟩
      · rw [hcall, ← herror p, hstarted]
        simp

/-- In the inner tag `p` is declared behind its use, and the default namespace is given up; behind it neither counts. -/
example : (start "<a xmlns='u'><p:b p:c='x' xmlns:p='v' xmlns=''><d/></p:b><e/></a>".toList none).events.filterMap
    (fun e => match e with
      | .startElement _ uri name attributes => some (uri, name, attributes.map (·.uri))
      | _ => none) =
    [("u", "a", []), ("v", "b", ["v"]), ("", "d", []), ("u", "e", [])] := by
  decide +kernel

end Reader

end MapMarkup.Xml
