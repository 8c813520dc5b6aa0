import MapMarkup.Proofs.Calls

/-!
# Which start tags are open

Of the tokens of a document, some start elements that later tokens end. Which elements are open behind a list of tokens
can be told from the list alone, by counting (`LeavesOpen`). The open elements that a reader keeps are those: each has
been built from the attributes of its start tag, and between two of the tags that are open lies what closes everything
that it opens (`Leads`). This holds after every call (`Reader.leads_afterCalls`).
-/

namespace MapMarkup.Xml

/-! ### Counting elements -/

/-- How many more elements are open after a token than before it. -/
def Token.rise : Token → Int
  | elementStart _ _ => 1
  | emptyEnd | closeTag _ _ => -1
  | aside | entity _ _ | .attribute _ _ | openEnd | text _ | cdata _ => 0

/-- How many more elements tokens start than they end. -/
def rise : List Token → Int
  | [] => 0
  | t :: ts => t.rise + rise ts

@[simp] theorem rise_nil : rise [] = 0 := rfl

@[simp] theorem rise_cons (t : Token) (ts : List Token) : rise (t :: ts) = t.rise + rise ts := rfl

@[simp] theorem rise_append (ts us : List Token) : rise (ts ++ us) = rise ts + rise us := by
  induction ts with
  | nil => simp
  | cons t ts ih => rw [List.cons_append, rise_cons, rise_cons, ih, Int.add_assoc]

/-- An element that is open in front of the tokens is open behind them: wherever they are cut, those in front of the cut
do not end more elements than they start. -/
def Keeps (ts : List Token) : Prop :=
  ∀ n, 0 ≤ rise (ts.take n)

private theorem Keeps.rise_nonneg {ts : List Token} (h : Keeps ts) : 0 ≤ rise ts := by
  have := h ts.length
  rwa [List.take_length] at this

theorem Keeps.left {ts us : List Token} (h : Keeps (ts ++ us)) : Keeps ts := by
  intro n
  rcases Nat.le_total n ts.length with hn | hn
  · have := h n
    rwa [List.take_append_of_le_length hn] at this
  · have := h ts.length
    rwa [List.take_left, ← List.take_of_length_le hn] at this

theorem Keeps.append {ts us : List Token} (ht : Keeps ts) (hu : Keeps us) : Keeps (ts ++ us) := by
  intro n
  have hfront := ht n
  have hback := hu (n - ts.length)
  rw [List.take_append, rise_append]
  omega

/-- The tokens close what they open, and nothing else. -/
structure Balanced (ts : List Token) : Prop where
  keeps : Keeps ts
  rise_eq : rise ts = 0

namespace Balanced

variable {ts us : List Token}

theorem append (ht : Balanced ts) (hu : Balanced us) : Balanced (ts ++ us) :=
  ⟨ht.keeps.append hu.keeps, by simp [ht.rise_eq, hu.rise_eq]⟩

/-- Tokens that neither start nor end elements. -/
private theorem of_level (h : ∀ t ∈ ts, t.rise = 0) : Balanced ts := by
  have hzero : ∀ us : List Token, (∀ t ∈ us, t.rise = 0) → rise us = 0 := by
    intro us hus
    induction us with
    | nil => rfl
    | cons t us ih =>
      rw [rise_cons, hus t (by simp), ih fun t ht => hus t (List.mem_cons_of_mem _ ht)]
      rfl
  refine ⟨fun n => ?_, hzero ts h⟩
  exact Int.le_of_eq (hzero _ fun t ht => h t (List.mem_of_mem_take ht)).symm

private theorem nil : Balanced [] :=
  of_level (by simp)

theorem singleton {t : Token} (ht : t.rise = 0) : Balanced [t] :=
  of_level (by simpa using ht)

/-- A whole element. -/
theorem element (h : Balanced ts) (name : QName) (span : Span) {t : Token} (ht : t.rise = -1) :
    Balanced (.elementStart name span :: (ts ++ [t])) := by
  have hstart : (Token.elementStart name span).rise = 1 := rfl
  constructor
  · intro n
    rcases n with _ | n
    · exact Int.le_refl 0
    · have hinner := h.keeps n
      have hend : rise ([t].take (n - ts.length)) = 0 ∨ rise ([t].take (n - ts.length)) = -1 := by
        rcases n - ts.length with _ | j
        · exact .inl rfl
        · exact .inr (by simp [ht])
      rw [List.take_succ_cons, List.take_append, rise_cons, rise_append, hstart]
      omega
  · simp [hstart, h.rise_eq, ht]

end Balanced

/-! ### Open elements -/

/-- Among the tokens is the start of an element that is still open behind them; `later` are the tokens that follow its
name. -/
def LeavesOpen (ts later : List Token) : Prop :=
  ∃ before name span, ts = before ++ .elementStart name span :: later ∧ Keeps later

theorem Balanced.not_leavesOpen {ts later : List Token} (h : Balanced ts) : ¬ LeavesOpen ts later := by
  rintro ⟨before, name, span, rfl, hlater⟩
  have hbefore := h.keeps.left.rise_nonneg
  have hnonneg := hlater.rise_nonneg
  have hzero := h.rise_eq
  have hstart : (Token.elementStart name span).rise = 1 := rfl
  rw [rise_append, rise_cons, hstart] at hzero
  omega

/-- An element that is open behind `ts ++ us` has been started in one of the two. -/
theorem leavesOpen_append_iff {ts us later : List Token} (hus : Keeps us) :
    LeavesOpen (ts ++ us) later ↔ (∃ inner, LeavesOpen ts inner ∧ later = inner ++ us) ∨ LeavesOpen us later := by
  constructor
  · rintro ⟨before, name, span, h, hlater⟩
    rcases List.append_eq_append_iff.1 h with ⟨front, rfl, hfront⟩ | ⟨back, rfl, hback⟩
    · exact .inr ⟨front, name, span, hfront, hlater⟩
    · rcases back with _ | ⟨t, inner⟩
      · exact .inr ⟨[], name, span, hback.symm, hlater⟩
      · obtain ⟨rfl, rfl⟩ := List.cons.inj hback
        exact .inl ⟨inner, ⟨before, name, span, rfl, hlater.left⟩, rfl⟩
  · rintro (⟨inner, ⟨before, name, span, rfl, hinner⟩, rfl⟩ | ⟨before, name, span, rfl, hlater⟩)
    · exact ⟨before, name, span, by simp, hinner.append hus⟩
    · exact ⟨ts ++ before, name, span, by simp, hlater⟩

/-! ### What a reader keeps -/

/-- The token of an attribute. -/
def RawAttribute.token (a : RawAttribute) : Token := .attribute a.name a.value

/-- The element whose start tag has this name and these attributes. -/
def OpenElement.ofTag (name : QName) (span : Span) (tag : List RawAttribute) : OpenElement :=
  tag.foldl (fun e a => e.addAttribute a.name a.value) { name, span }

theorem OpenElement.ofTag_concat (name : QName) (span : Span) (tag : List RawAttribute) (a : RawAttribute) :
    ofTag name span (tag ++ [a]) = (ofTag name span tag).addAttribute a.name a.value :=
  List.foldl_append

theorem balanced_tag (tag : List RawAttribute) : Balanced (tag.map RawAttribute.token) := by
  refine .of_level fun t ht => ?_
  obtain ⟨a, -, rfl⟩ := List.mem_map.1 ht
  rfl

/-- After the tokens a lexer is in the phase, and a reader keeps the elements. -/
inductive Leads : List Token → Phase → OpenElements → Prop
  | outside {ts : List Token} {p : Phase} (hp : p.IsProlog ∨ p = .afterRoot) (hts : Balanced ts) : Leads ts p []
  | inTag {before : List Token} {p : Phase} {outer : OpenElements} {depth : Nat} (hbefore : Leads before p outer)
    (hp : p.isInTag = false) (hd : depth = outer.length) (name : QName) (span : Span) (tag : List RawAttribute) :
    Leads (before ++ .elementStart name span :: tag.map RawAttribute.token) (.inTag depth)
      (.ofTag name span tag :: outer)
  | content {ts gap : List Token} {depth : Nat} {opened : OpenElements} (htag : Leads ts (.inTag depth) opened)
    (hgap : Balanced gap) : Leads (ts ++ .openEnd :: gap) (.content (depth + 1)) opened

namespace Leads

variable {ts us : List Token} {p : Phase} {depth : Nat} {opened : OpenElements}

private theorem of_outside (h : Leads ts p opened) (hp : p.IsProlog ∨ p = .afterRoot) : opened = [] ∧ Balanced ts := by
  cases h with
  | outside _ hts => exact ⟨rfl, hts⟩
  | inTag | content => simp [Phase.IsProlog] at hp

theorem of_inTag (h : Leads ts (.inTag depth) opened) :
    ∃ before p outer name span tag, ts = before ++ .elementStart name span :: tag.map RawAttribute.token ∧
      opened = .ofTag name span tag :: outer ∧ Leads before p outer ∧ p.isInTag = false ∧ depth = outer.length := by
  cases h with
  | outside hp => simp [Phase.IsProlog] at hp
  | inTag hbefore hp hd name span tag => exact ⟨_, _, _, name, span, tag, rfl, rfl, hbefore, hp, hd⟩

theorem of_content (h : Leads ts (.content depth) opened) :
    ∃ inner gap outer, ts = inner ++ .openEnd :: gap ∧ depth = outer + 1 ∧ Leads inner (.inTag outer) opened ∧
      Balanced gap := by
  cases h with
  | outside hp => simp [Phase.IsProlog] at hp
  | content htag hgap => exact ⟨_, _, _, rfl, rfl, htag, hgap⟩

private theorem depth_eq (h : Leads ts (.content depth) opened) : depth = opened.length := by
  obtain ⟨inner, gap, depth, rfl, rfl, htag, -⟩ := h.of_content
  obtain ⟨before, p, outer, name, span, tag, rfl, rfl, -, -, rfl⟩ := htag.of_inTag
  rfl

private theorem content_append (h : Leads ts (.content depth) opened) (hus : Balanced us) :
    Leads (ts ++ us) (.content depth) opened := by
  obtain ⟨inner, gap, outer, rfl, rfl, htag, hgap⟩ := h.of_content
  rw [List.append_assoc, List.cons_append]
  exact .content htag (hgap.append hus)

/-- A whole element leaves open what was open before it. -/
private theorem append_element (h : Leads ts p opened) (hp : p.isInTag = false) (hus : Balanced us) :
    Leads (ts ++ us) (Lexer.phaseAt opened.length) opened := by
  cases h with
  | outside _ hts => exact .outside (.inr rfl) (hts.append hus)
  | inTag => simp [Phase.isInTag] at hp
  | content htag hgap =>
    have hcontent := Leads.content htag hgap
    rw [← hcontent.depth_eq]
    exact hcontent.content_append hus

/-- One token more. -/
private theorem concat {r : Reader} {q : Phase} {t : Token} {entities : Entities} {events : List Event}
    (h : Leads ts p r.opened) (hgo : p.Goes t q) (htake : r.takeToken t = .ok (opened, entities, events)) :
    Leads (ts ++ [t]) q opened := by
  have htakes := Reader.takes_of_takeToken htake
  cases hgo with
  | prolog hp hq =>
    obtain ⟨ho, hts⟩ := h.of_outside (.inl hp)
    cases htakes
    rw [ho]
    exact .outside (.inl hq) (hts.append (.singleton rfl))
  | entity name value =>
    obtain ⟨ho, hts⟩ := h.of_outside (.inl trivial)
    cases htakes
    rw [ho]
    exact .outside (.inl trivial) (hts.append (.singleton rfl))
  | root hp _ name span =>
    obtain ⟨ho, -⟩ := h.of_outside (.inl hp)
    cases htakes
    exact .inTag h hp.isInTag_eq (by rw [ho]; rfl) name span []
  | attr depth name value =>
    obtain ⟨before, p, outer, name', span, tag, rfl, ho, hbefore, hp, hd⟩ := h.of_inTag
    cases htakes with
    | strayAttr hnone => simp [ho] at hnone
    | attr ho' =>
      obtain ⟨rfl, rfl⟩ := List.cons.inj (ho.symm.trans ho')
      have := Leads.inTag hbefore hp hd name' span (tag ++ [⟨name, value⟩])
      rwa [OpenElement.ofTag_concat, List.map_append, ← List.cons_append, ← List.append_assoc] at this
  | openEnd depth =>
    obtain ⟨before, p, outer, name, span, tag, -, ho, -⟩ := h.of_inTag
    cases htakes with
    | strayOpenEnd hnone => simp [ho] at hnone
    | openEnd ho' =>
      rw [ho'] at h
      exact .content h .nil
  | emptyEnd depth =>
    obtain ⟨before, p, outer, name, span, tag, rfl, ho, hbefore, hp, rfl⟩ := h.of_inTag
    cases htakes with
    | strayEmptyEnd hnone => simp [ho] at hnone
    | emptyEnd ho' =>
      obtain ⟨rfl, rfl⟩ := List.cons.inj (ho.symm.trans ho')
      rw [List.append_assoc]
      exact hbefore.append_element hp ((balanced_tag tag).element name span rfl)
  | aside depth | text depth | cdata depth =>
    cases htakes
    exact h.content_append (.singleton rfl)
  | child depth name span =>
    cases htakes
    exact .inTag h rfl h.depth_eq name span []
  | close depth name span =>
    obtain ⟨inner, gap, depth, rfl, rfl, htag, hgap⟩ := h.of_content
    obtain ⟨before, p, outer, name', span', tag, rfl, ho, hbefore, hp, rfl⟩ := htag.of_inTag
    cases htakes with
    | closeTag _ ho' =>
      obtain ⟨-, rfl⟩ := List.cons.inj (ho.symm.trans ho')
      -- The tag, its end and the content make up what the end tag ends.
      have hcontent : Balanced (tag.map RawAttribute.token ++ .openEnd :: gap) :=
        (balanced_tag tag).append ((Balanced.singleton (t := .openEnd) rfl).append hgap)
      have := hbefore.append_element hp (hcontent.element name' span' (t := .closeTag name span) rfl)
      simpa using this
  | epilog =>
    obtain ⟨ho, hts⟩ := h.of_outside (.inr rfl)
    cases htakes
    rw [ho]
    exact .outside (.inr rfl) (hts.append (.singleton rfl))

end Leads

namespace Reader

/-- The tokens that the first `n` calls have read. -/
def tokensOfCalls (r : Reader) : Nat → List Token
  | 0 => []
  | n + 1 => r.tokensOfCalls n ++ (r.tokenOfCall n).toList

/-- Calls that have read tokens have left open what is open behind these tokens. -/
theorem leads_afterCalls {source : List Char} {systemId : Option String} {n : Nat} :
    let r := start source systemId
    (∀ k < n, (r.call k).2 = .token) →
      Leads (r.tokensOfCalls n) (r.afterCalls n).lexer.phase (r.afterCalls n).opened := by
  intro r h
  induction n with
  | zero => exact .outside (.inl trivial) .nil
  | succ n ih =>
    have hn := ih fun k hk => h k (Nat.lt_succ_of_lt hk)
    obtain ⟨t, lexer, opened, entities, events, ht, hl, htake, -, hnext⟩ :=
      exists_of_call_token (h n (Nat.lt_succ_self n))
    rw [tokensOfCalls, ht, hnext]
    exact Leads.concat (r := { r.afterCalls n with lexer }) hn (Lexer.goes_of_next? hl) htake

end Reader

end MapMarkup.Xml
