import MapMarkup.Proofs.ActiveDescendants
import MapMarkup.Proofs.Scopes

/-!
# Attributes that are repeated

Two attributes of a tag may have the same name in the same namespace, by way of one qualifier or of two that are
declared alike. The reader does not compare names: a start tag hands on all its attributes, repeated or not. So the
attributes that reach the rules are distinct if and only if those of the tag are. If they are not, a rule that asks for
an attribute gets the first value in the tag, and a rule that goes by the scan the last one
(`Xml.Reader.attributes_of_startTag`).
-/

namespace MapMarkup

/-! ### Lists of attributes that correspond -/

section Correspondence

variable {α β : Type} {R : α → β → Prop} {xs : List α} {ys : List β}

private theorem forall_mem_iff_of_forall₂ {P : α → Prop} {Q : β → Prop} (h : List.Forall₂ R xs ys)
    (hPQ : ∀ x y, R x y → (P x ↔ Q y)) : (∀ x ∈ xs, P x) ↔ ∀ y ∈ ys, Q y := by
  induction h with
  | nil => simp
  | cons hxy _ ih => rw [List.forall_mem_cons, List.forall_mem_cons, hPQ _ _ hxy, ih]

private theorem pairwise_iff_of_forall₂ {S : α → α → Prop} {T : β → β → Prop} (h : List.Forall₂ R xs ys)
    (hST : ∀ x y x' y', R x y → R x' y' → (S x x' ↔ T y y')) : xs.Pairwise S ↔ ys.Pairwise T := by
  induction h with
  | nil => simp
  | cons hxy hrest ih =>
    rw [List.pairwise_cons, List.pairwise_cons, ih,
      forall_mem_iff_of_forall₂ hrest fun x' y' hx'y' => hST _ _ x' y' hxy hx'y']

/-- Which element of a list is the first with a property can be told from the corresponding list. -/
private theorem exists_find?_iff_of_forall₂ {P Q : α → Prop} {p : β → Bool} {q : β → Prop} (h : List.Forall₂ R xs ys)
    (hp : ∀ x y, R x y → (p y = true ↔ P x)) (hq : ∀ x y, R x y → (q y ↔ Q x)) :
    (∃ y, ys.find? p = some y ∧ q y) ↔
      ∃ before x after, xs = before ++ x :: after ∧ P x ∧ (∀ b ∈ before, ¬ P b) ∧ Q x := by
  induction h with
  | nil => simp
  | @cons x y xs ys hxy _ ih =>
    by_cases hP : P x
    · rw [List.find?_cons_of_pos ((hp x y hxy).2 hP)]
      constructor
      · rintro ⟨y', hy', hqy⟩
        obtain rfl := Option.some.inj hy'
        exact ⟨[], x, xs, rfl, hP, by simp, (hq x y hxy).1 hqy⟩
      · rintro ⟨before, x', after, hsplit, -, hbefore, hQ⟩
        rcases before with _ | ⟨b, before⟩
        · obtain ⟨rfl, -⟩ := List.cons.inj hsplit
          exact ⟨y, rfl, (hq x y hxy).2 hQ⟩
        · obtain ⟨rfl, -⟩ := List.cons.inj hsplit
          exact absurd hP (hbefore x (by simp))
    · rw [List.find?_cons_of_neg fun hpy => hP ((hp x y hxy).1 hpy), ih]
      constructor
      · rintro ⟨before, x', after, rfl, hP', hbefore, hQ⟩
        exact ⟨x :: before, x', after, rfl, hP', by simpa using ⟨hP, hbefore⟩, hQ⟩
      · rintro ⟨before, x', after, hsplit, hP', hbefore, hQ⟩
        rcases before with _ | ⟨b, before⟩
        · obtain ⟨rfl, -⟩ := List.cons.inj hsplit
          exact absurd hP' hP
        · obtain ⟨rfl, rfl⟩ := List.cons.inj hsplit
          exact ⟨before, x', after, rfl, hP', fun b hb => hbefore b (by simp [hb]), hQ⟩

end Correspondence

namespace Xml

/-! ### Names of attributes -/

namespace RawAttribute

/-- The attribute is in the namespace: in that for which its qualifier stands, or in none if it has no qualifier. -/
def InNamespace (ts : List Token) (a : RawAttribute) (uri : List Char) : Prop :=
  if a.name.qualifier.chars = [] then uri = [] else StandsFor ts a.name.qualifier.chars uri

/-- The attribute has the given name in the given namespace. -/
def IsNamed (ts : List Token) (uri name : List Char) (a : RawAttribute) : Prop :=
  a.InNamespace ts uri ∧ a.name.base.chars = name

/-- The attributes have the same name in the same namespace, whatever their qualifiers are. -/
def SameName (ts : List Token) (a b : RawAttribute) : Prop :=
  ∃ uri name, a.IsNamed ts uri name ∧ b.IsNamed ts uri name

/-- What the first of the attributes with the given name in the given namespace says. -/
def FirstValue (ts : List Token) (entities : Entities) (attributes : List RawAttribute)
    (uri name text : List Char) : Prop :=
  ∃ before a after, attributes = before ++ a :: after ∧ a.IsNamed ts uri name ∧
    (∀ b ∈ before, ¬ b.IsNamed ts uri name) ∧ entities.expand .attributeValue a.value = .ok text

end RawAttribute

section Names

open RawAttribute

variable {ts : List Token} {opened : OpenElements} {entities : Entities}
variable (hscope : ∀ q uri, opened.binding? q = some uri ↔ InScope ts q uri)

include hscope

private theorem RawAttribute.InNamespace.unique {a : RawAttribute} {uri uri' : List Char} (h : a.InNamespace ts uri)
    (h' : a.InNamespace ts uri') : uri = uri' := by
  unfold InNamespace at h h'
  split at h
  · rename_i hempty
    rw [if_pos hempty] at h'
    exact h.trans h'.symm
  · rename_i hempty
    rw [if_neg hempty] at h'
    have hsame := ((namespaceOf_eq_ok_iff hscope).2 h).symm.trans ((namespaceOf_eq_ok_iff hscope).2 h')
    exact Except.ok.inj hsame

private theorem RawAttribute.Means.isNamed_iff {a : RawAttribute} {b : Attribute} {uri name : List Char}
    (h : a.Means ts entities b) : a.IsNamed ts uri name ↔ b.uri = .ofList uri ∧ b.name = .ofList name := by
  obtain ⟨uri', text, huri', -, rfl⟩ := h
  simp only [String.ofList_inj, IsNamed]
  refine and_congr_left' ⟨fun huri => InNamespace.unique hscope huri' huri, ?_⟩
  rintro rfl
  exact huri'

private theorem sameName_iff {a a' : RawAttribute} {b b' : Attribute} (h : a.Means ts entities b)
    (h' : a'.Means ts entities b') : a.SameName ts a' ↔ (b.uri, b.name) = (b'.uri, b'.name) := by
  unfold SameName
  simp only [h.isNamed_iff hscope, h'.isNamed_iff hscope, Prod.mk.injEq]
  constructor
  · rintro ⟨uri, name, ⟨huri, hname⟩, huri', hname'⟩
    exact ⟨huri.trans huri'.symm, hname.trans hname'.symm⟩
  · rintro ⟨huri, hname⟩
    exact ⟨b.uri.toList, b.name.toList, by simp, by simp [huri, hname]⟩

variable {written : List RawAttribute} {attributes : Attributes}
variable (h : List.Forall₂ (RawAttribute.Means ts entities) written attributes)

include h

private theorem distinct_iff_of_means :
    attributes.Distinct ↔ written.Pairwise fun a b => ¬ a.SameName ts b := by
  rw [Attributes.Distinct, List.nodup_iff_pairwise_ne, List.pairwise_map]
  exact (pairwise_iff_of_forall₂ h fun a b a' b' hab ha'b' => not_congr (sameName_iff hscope hab ha'b')).symm

private theorem get?_eq_some_iff_of_means {uri name text : List Char} :
    attributes.get? (.ofList uri) (.ofList name) = some (.ofList text) ↔
      FirstValue ts entities written uri name text := by
  rw [Attributes.get?, Option.map_eq_some_iff]
  refine exists_find?_iff_of_forall₂ h (fun a b hab => ?_) fun a b hab => ?_
  · rw [hab.isNamed_iff hscope, Bool.and_eq_true, decide_eq_true_eq, decide_eq_true_eq, and_comm]
  · obtain ⟨uri', text', -, htext, rfl⟩ := hab
    rw [htext, Except.ok.injEq, String.ofList_inj]

private theorem last?_eq_some_iff_of_means {name text : List Char} :
    attributes.last? (.ofList name) = some (.ofList text) ↔ FirstValue ts entities written.reverse [] name text := by
  have hreverse : attributes.last? (.ofList name) = Attributes.get? attributes.reverse (.ofList []) (.ofList name) := by
    rw [Attributes.last?, Attributes.get?, ← List.head?_filter, List.filter_reverse, List.head?_reverse]
  rw [hreverse]
  exact get?_eq_some_iff_of_means hscope (List.forall₂_reverse_iff.2 h)

end Names

namespace Reader

/-! ### Start tags -/

variable {source : List Char} {systemId : Option String} {k : Nat}

/-- At the end of a start tag, the call gives the start of the element, or fails as the start of the element does. -/
private theorem AtTagEnd.call_cases (h : (start source systemId).AtTagEnd k) {element : OpenElement}
    {outer : OpenElements} :
    let r := start source systemId
    (r.afterCalls k).opened = element :: outer → (r.afterCalls k).stage = .reading →
    ∃ past : Reader, past.opened = (r.afterCalls k).opened ∧ past.entities = (r.afterCalls k).entities ∧
      match past.startElement element with
      | .ok (uri, name, event) => ∃ closing, r.call k = (event :: closing, .token) ∧
          (closing = [] ∨ closing = [.endElement past.locator uri name])
      | .error e => r.call k = ([], .failed e) := by
  intro r ho hstage
  obtain ⟨-, t, lexer, hl, ht⟩ := h
  have hs : (r.afterCalls k).stage ≠ .finished := by simp [hstage]
  have hopening : (r.afterCalls k).opening = [] := by simp [opening, hstage]
  let past : Reader := { r.afterCalls k with lexer }
  refine ⟨past, rfl, rfl, ?_⟩
  have hstart := takeToken_of_tagEnd (r := past) ho ht
  cases hstarted : past.startElement element with
  | error e =>
    rw [hstarted] at hstart
    rw [← hopening]
    exact congrArg Prod.snd (advance_of_failed hs hl hstart)
  | ok started =>
    rw [hstarted] at hstart
    obtain ⟨opened, closing, htake, hclosing⟩ := hstart
    refine ⟨closing, ?_, hclosing⟩
    have hcall := congrArg Prod.snd (advance_of_token hs hl htake)
    rwa [hopening] at hcall

/-- An element is started at the end of its start tag, with an attribute for each one that is written there and is not
a declaration, in this order. That attributes are repeated is not an error: whether the call fails is decided by the
qualifiers and by the values one by one. The attributes are distinct if and only if no two of those written have the
same name in the same namespace, and then it does not matter which occurrence of a name is looked for. In any case the
first occurrence has the first value that is written, and the last occurrence the last one. -/
theorem attributes_of_startTag (source : List Char) (systemId : Option String) (k : Nat) :
    let r : Reader := start source systemId
    let ts := r.tokensOfCalls k
    let entities := (r.afterCalls k).entities
    ((∃ locator uri name attributes, .startElement locator uri name attributes ∈ (r.call k).1) → r.AtTagEnd k) ∧
    (r.AtTagEnd k → ∃ before element span, ∃ tag : List RawAttribute,
      ts = before ++ .elementStart element span :: tag.map RawAttribute.token ∧
      let written := tag.filter (!·.name.isDeclaration)
      ((r.call k).2 = .token ↔ ¬ Undefined ts element.qualifier.chars ∧
        ∀ a ∈ written, ¬ Undefined ts a.name.qualifier.chars ∧
          ∃ text, entities.expand .attributeValue a.value = .ok text) ∧
      ((r.call k).2 = .token →
        ∃ locator uri name attributes, .startElement locator uri name attributes ∈ (r.call k).1) ∧
      ∀ locator uri name, ∀ attributes : Attributes, .startElement locator uri name attributes ∈ (r.call k).1 →
        List.Forall₂ (RawAttribute.Means ts entities) written attributes ∧
        (attributes.Distinct ↔ written.Pairwise fun a b => ¬ a.SameName ts b) ∧
        (attributes.Distinct → ∀ key, attributes.get? "" key = attributes.last? key) ∧
        (∀ space key text, attributes.get? (.ofList space) (.ofList key) = some (.ofList text) ↔
          RawAttribute.FirstValue ts entities written space key text) ∧
        ∀ key text, attributes.last? (.ofList key) = some (.ofList text) ↔
          RawAttribute.FirstValue ts entities written.reverse [] key text) := by
  intro r ts entities
  refine ⟨fun ⟨locator, uri, name, attributes, h⟩ => atTagEnd_of_start h, fun h => ?_⟩
  obtain ⟨before, element, span, tag, outer, hts, ho, hstage, hscope⟩ := h.exists_tag
  obtain ⟨past, hopened, hentities, hcall⟩ := h.call_cases ho hstage
  have hpast : ∀ q uri, past.opened.binding? q = some uri ↔ InScope ts q uri := by rwa [hopened]
  have hok := exists_startElement_iff hpast (e := .ofTag element span tag)
  rw [OpenElement.name_ofTag, OpenElement.attributes_ofTag, hentities] at hok
  refine ⟨before, element, span, tag, hts, ?_⟩
  cases hstarted : past.startElement (.ofTag element span tag) with
  | error e =>
    rw [hstarted] at hcall hok
    rw [hcall]
    exact ⟨by simpa using hok, by simp, by simp⟩
  | ok started =>
    obtain ⟨uri, name, event⟩ := started
    rw [hstarted] at hcall hok
    obtain ⟨closing, hcall, hclosing⟩ := hcall
    obtain ⟨cs, attributes, -, hmeans, -, -, rfl⟩ := startElement_of_eq_ok hpast hstarted
    rw [OpenElement.attributes_ofTag, hentities] at hmeans
    rw [hcall]
    refine ⟨by simpa using hok, fun _ => ⟨past.locator, uri, name, attributes, by simp⟩, ?_⟩
    intro locator' uri' name' attributes' hmem
    have hevent : Event.startElement locator' uri' name' attributes' =
        .startElement past.locator uri name attributes := by
      rcases hclosing with rfl | rfl <;> simpa using hmem
    obtain ⟨rfl, rfl, rfl, rfl⟩ := Event.startElement.inj hevent
    exact ⟨hmeans, distinct_iff_of_means hscope hmeans,
      fun hdistinct => Rules.StartTag.get?_eq_last? (t := ⟨past.locator, name', attributes'⟩) hdistinct,
      fun _ _ _ => get?_eq_some_iff_of_means hscope hmeans, fun _ _ => last?_eq_some_iff_of_means hscope hmeans⟩

/-- A tag with two attributes of one name and, by way of two qualifiers, two of another is read without an error. -/
theorem not_distinct_of_repeated :
    let r := start "<a xmlns:p='u' xmlns:q='u' b='1' p:c='2' b='3' q:c='4'/>".toList none
    let attributes : Attributes :=
      [⟨"", "b", "1", false⟩, ⟨"u", "c", "2", false⟩, ⟨"", "b", "3", false⟩, ⟨"u", "c", "4", false⟩]
    r.error? = none ∧ .startElement ⟨1, 57, none, none⟩ "" "a" attributes ∈ r.events ∧ ¬ attributes.Distinct ∧
      attributes.get? "" "b" = some "1" ∧ attributes.last? "b" = some "3" := by
  decide +kernel

end Reader

end Xml

end MapMarkup
