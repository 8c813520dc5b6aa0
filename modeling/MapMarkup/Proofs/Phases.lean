import MapMarkup.Xml.Lexer.Progress

/-!
# Which tokens come in which phase

Of a scan it is often enough to know what its values look like, wherever it starts: `Scan.Gives`. From this it follows
which tokens a lexer can give in a phase and which phase comes after them (`Phase.Goes`, `Lexer.goes_of_next?`). A
start tag is a name, then attributes, then one of its two ends; and the number in a phase goes up at the end of a start
tag and down at an end tag. From some tokens the phase in which they come can be told (`Phase.Goes.exists_of_closeTag` and
its siblings).
-/

namespace MapMarkup

namespace Scan

variable {ε α β : Type}

/-- Whatever value the scan gives, it satisfies `P`. -/
def Gives (P : α → Prop) (s : Scan ε α) : Prop :=
  ∀ c r, s c = .ok r → P r.value

theorem Gives.fail {P : α → Prop} (e : ε) : Gives P (Scan.fail e : Scan ε α) := by
  intro c r h; simp [Scan.fail] at h

theorem Gives.pure {P : α → Prop} {a : α} (ha : P a) : Gives P (Pure.pure a : Scan ε α) := by
  intro c r h
  obtain rfl := Except.ok.inj h
  exact ha

theorem Gives.bind {P : β → Prop} {s : Scan ε α} {f : α → Scan ε β} (hf : ∀ a, Gives P (f a)) : Gives P (s >>= f) := by
  intro c r h
  obtain ⟨r₁, -, r₂, h₂, hr, -⟩ := bind_eq_ok h
  rw [hr]
  exact hf r₁.value r₁.next r₂ h₂

end Scan

namespace Xml

/-! ### Tokens of constructs -/

namespace Production

open Scan (Gives)

theorem gives_declaration : Gives (· = .aside) declaration :=
  .bind fun _ => .bind fun _ => .bind fun _ => .bind fun _ => .bind fun _ => .bind fun _ => .bind fun _ =>
    .bind fun _ => .pure rfl

theorem gives_comment : Gives (· = .aside) comment := by
  refine .bind fun _ => .bind fun content => .bind fun _ => ?_
  split
  · exact .fail _
  · split
    · exact .fail _
    · exact .pure rfl

theorem gives_instruction : Gives (· = .aside) instruction :=
  .bind fun _ => .bind fun _ => .bind fun _ => .bind fun _ => .bind fun _ => .pure rfl

theorem gives_cdataSection : Gives (∃ content, · = .cdata content) cdataSection :=
  .bind fun _ => .bind fun content => .bind fun _ => .pure ⟨content, rfl⟩

theorem gives_doctypeEnd : Gives (· = .aside) doctypeEnd :=
  .bind fun _ => .bind fun _ => .bind fun _ => .pure rfl

private theorem gives_entityDeclaration : Gives (∃ name value, · = .entity name value) entityDeclaration := by
  refine .bind fun _ => .bind fun _ => .bind fun parameter => ?_
  dsimp only
  split
  · exact .bind fun _ => .bind fun _ => .bind fun n => .bind fun _ => .bind fun value => .bind fun _ => .bind fun _ =>
      .pure ⟨n, value, rfl⟩
  · exact .bind fun n => .bind fun _ => .bind fun value => .bind fun _ => .bind fun _ => .pure ⟨n, value, rfl⟩

theorem gives_elementStart : Gives (∃ name span, · = .elementStart name span) elementStart :=
  .bind fun _ => .bind fun _ => .bind fun n => .bind fun _ => .pure ⟨n, _, rfl⟩

theorem gives_closeTag : Gives (∃ name span, · = .closeTag name span) closeTag :=
  .bind fun _ => .bind fun _ => .bind fun n => .bind fun _ => .bind fun _ => .bind fun _ => .pure ⟨n, _, rfl⟩

theorem gives_attributeSpec : Gives (∃ name value, · = .attribute name value) attributeSpec :=
  .bind fun n => .bind fun _ => .bind fun _ => .bind fun value => .bind fun _ => .pure ⟨n, value, rfl⟩

theorem gives_textRun : Gives (∃ content, · = .text content) textRun := by
  refine .bind fun content => ?_
  split
  · exact .fail _
  · exact .pure ⟨content, rfl⟩

/-- The tokens of a start tag after its name. -/
inductive InTag : Token → Prop
  | attr (name : QName) (value : Passage) : InTag (.attribute name value)
  | openEnd : InTag .openEnd
  | emptyEnd : InTag .emptyEnd

private theorem gives_attribute : Gives InTag attributeSpec := by
  intro c r h
  obtain ⟨name, value, ht⟩ := gives_attributeSpec c r h
  rw [ht]
  exact .attr name value

private theorem gives_inTag : Gives InTag inTag := by
  refine .bind fun gap => .bind fun cs => ?_
  split
  · split
    · exact .fail _
    · exact gives_attribute
  · exact .bind fun _ => .bind fun _ => .pure .emptyEnd
  · exact .bind fun _ => .pure .openEnd
  · split
    · exact .bind fun _ => .fail _
    · exact gives_attribute

end Production

/-! ### Phases -/

/-- The phases before the root element. -/
def Phase.IsProlog : Phase → Prop
  | .opening | .beforeDoctype | .inDoctype | .beforeRoot => True
  | _ => False

/-- The tokens that may come in a phase, each with the phases that may come after it. -/
inductive Phase.Goes : Phase → Token → Phase → Prop
  | prolog {p q : Phase} (hp : p.IsProlog) (hq : q.IsProlog) : Goes p .aside q
  | entity (name : Passage) (value : Option Passage) : Goes .inDoctype (.entity name value) .inDoctype
  | root {p : Phase} (hp : p.IsProlog) (hd : p ≠ .inDoctype) (name : QName) (span : Span) :
    Goes p (.elementStart name span) (.inTag 0)
  | attr (depth : Nat) (name : QName) (value : Passage) : Goes (.inTag depth) (.attribute name value) (.inTag depth)
  | openEnd (depth : Nat) : Goes (.inTag depth) .openEnd (.content (depth + 1))
  | emptyEnd (depth : Nat) : Goes (.inTag depth) .emptyEnd (Lexer.phaseAt depth)
  | aside (depth : Nat) : Goes (.content depth) .aside (.content depth)
  | text (depth : Nat) (content : Passage) : Goes (.content depth) (.text content) (.content depth)
  | cdata (depth : Nat) (content : Passage) : Goes (.content depth) (.cdata content) (.content depth)
  | child (depth : Nat) (name : QName) (span : Span) : Goes (.content depth) (.elementStart name span) (.inTag depth)
  | close (depth : Nat) (name : QName) (span : Span) :
    Goes (.content depth) (.closeTag name span) (Lexer.phaseAt (depth - 1))
  | epilog : Goes .afterRoot .aside .afterRoot

namespace Phase.Goes

variable {p q : Phase}

theorem eq_of_entity {name : Passage} {value : Option Passage} (h : p.Goes (.entity name value) q) : p = .inDoctype := by
  cases h with
  | entity => rfl

theorem exists_of_attr {name : QName} {value : Passage} (h : p.Goes (.attribute name value) q) :
    ∃ depth, p = .inTag depth ∧ q = .inTag depth := by
  cases h with
  | attr depth => exact ⟨depth, rfl, rfl⟩

/-- A start tag ends where one is being read. -/
theorem exists_of_tagEnd {t : Token} (h : p.Goes t q) (ht : t = .openEnd ∨ t = .emptyEnd) : ∃ depth, p = .inTag depth := by
  rcases ht with rfl | rfl
  · cases h with
    | openEnd depth => exact ⟨depth, rfl⟩
  · cases h with
    | emptyEnd depth => exact ⟨depth, rfl⟩

theorem exists_of_text {content : Passage} (h : p.Goes (.text content) q) : ∃ depth, p = .content depth := by
  cases h with
  | text depth => exact ⟨depth, rfl⟩

/-- An end tag comes in the content of an element. -/
theorem exists_of_closeTag {name : QName} {span : Span} (h : p.Goes (.closeTag name span) q) :
    ∃ depth, p = .content depth := by
  cases h with
  | close depth => exact ⟨depth, rfl⟩

end Phase.Goes

namespace Lexer

open Scan (Gives)

/-- Whatever token this gives, it may come in the phase, and the lexer is in a phase that may come after it. -/
def Stays (phase : Phase) (lexed : Lexed) : Prop :=
  ∀ t l, lexed = .ok (some (t, l)) → phase.Goes t l.phase

private theorem Stays.error {phase : Phase} (e : Malformed) : Stays phase (.error e) := by
  intro t l h; simp at h

private theorem Stays.none {phase : Phase} : Stays phase (.ok none) := by
  intro t l h; simp at h

private theorem stays_construct {α : Type} {phase : Phase} {kind : Construct} {s : Lexeme α} {P : α → Prop}
    {token : α → Token × Phase} (c : Cursor) (hs : Gives P s)
    (hp : ∀ a, P a → phase.Goes (token a).1 (token a).2) : Stays phase (construct kind s token c) := by
  intro t l h
  obtain ⟨r, hr, rfl, rfl⟩ := construct_eq_ok h
  exact hp r.value (hs c r hr)

theorem eq_of_aside? {phase : Phase} {c : Cursor} {t : Token} {l : Lexer}
    (h : aside? phase c = some (.ok (some (t, l)))) : t = .aside ∧ l.phase = phase := by
  unfold aside? at h
  split at h
  · obtain ⟨r, hr, rfl, rfl⟩ := construct_eq_ok (Option.some.inj h)
    exact ⟨Production.gives_comment c r hr, rfl⟩
  · split at h
    · simp at h
    · split at h
      · obtain ⟨r, hr, rfl, rfl⟩ := construct_eq_ok (Option.some.inj h)
        exact ⟨Production.gives_instruction c r hr, rfl⟩
      · simp at h

private theorem stays_aside? {p q : Phase} {c : Cursor} {lexed : Lexed} (h : aside? q c = some lexed)
    (hp : p.Goes .aside q) : Stays p lexed := by
  rintro t l rfl
  obtain ⟨rfl, hphase⟩ := eq_of_aside? h
  rw [hphase]
  exact hp

private theorem stays_beforeRoot (phase : Phase) (hp : phase.IsProlog) (hd : phase ≠ .inDoctype) (c : Cursor) :
    Stays phase (beforeRoot c) := by
  unfold beforeRoot
  dsimp only
  split
  · exact .none
  · split
    · rename_i h; exact stays_aside? h (.prolog hp trivial)
    · split
      · refine stays_construct _ Production.gives_elementStart ?_
        rintro _ ⟨name, span, rfl⟩
        exact .root hp hd name span
      · exact .error _

private theorem stays_beforeDoctype (phase : Phase) (hp : phase.IsProlog) (hd : phase ≠ .inDoctype) (c : Cursor) :
    Stays phase (beforeDoctype c) := by
  unfold beforeDoctype
  dsimp only
  split
  · have hs : Gives (fun _ => True) Production.doctype := fun _ _ _ => trivial
    refine stays_construct _ hs fun opened _ => ?_
    cases opened <;> exact .prolog hp trivial
  · split
    · rename_i h; exact stays_aside? h (.prolog hp trivial)
    · exact stays_beforeRoot phase hp hd _

private theorem stays_opening (c : Cursor) : Stays .opening (opening c) := by
  unfold opening
  split
  · exact stays_construct c Production.gives_declaration fun _ ht => ht ▸ .prolog trivial trivial
  · exact stays_beforeDoctype .opening trivial (by simp) c

private theorem stays_inDoctype (c : Cursor) : Stays .inDoctype (inDoctype c) := by
  unfold inDoctype
  split
  · exact .error _
  · rename_i d _
    unfold inDoctypeAt
    split
    · exact .none
    · split
      · refine stays_construct d Production.gives_entityDeclaration ?_
        rintro _ ⟨name, value, rfl⟩
        exact .entity name value
      · split
        · exact stays_construct d Production.gives_doctypeEnd fun _ ht => ht ▸ .prolog trivial trivial
        · split
          · rename_i h; exact stays_aside? h (.prolog trivial trivial)
          · exact .error _

private theorem stays_content (depth : Nat) (c : Cursor) : Stays (.content depth) (content depth c) := by
  unfold content
  split
  · exact .none
  · split
    · split
      · rename_i h; exact stays_aside? h (.aside depth)
      · split
        · refine stays_construct c Production.gives_cdataSection ?_
          rintro _ ⟨content, rfl⟩
          exact .cdata depth content
        · split
          · exact .error _
          · split
            · refine stays_construct c Production.gives_closeTag ?_
              rintro _ ⟨name, span, rfl⟩
              exact .close depth name span
            · refine stays_construct c Production.gives_elementStart ?_
              rintro _ ⟨name, span, rfl⟩
              exact .child depth name span
    · refine stays_construct c Production.gives_textRun ?_
      rintro _ ⟨content, rfl⟩
      exact .text depth content

private theorem stays_inTag (depth : Nat) (c : Cursor) : Stays (.inTag depth) (inTag depth c) := by
  unfold inTag
  split
  · exact .none
  · refine stays_construct c Production.gives_inTag fun t ht => ?_
    cases ht with
    | attr name value => exact .attr depth name value
    | openEnd => exact .openEnd depth
    | emptyEnd => exact .emptyEnd depth

private theorem stays_afterRoot (c : Cursor) : Stays .afterRoot (afterRoot c) := by
  unfold afterRoot
  dsimp only
  split
  · exact .none
  · split
    · rename_i h; exact stays_aside? h .epilog
    · exact .error _

/-- A lexer goes from phase to phase as its tokens say. -/
theorem goes_of_next? {l l' : Lexer} {t : Token} (h : l.next? = .ok (some (t, l'))) : l.phase.Goes t l'.phase := by
  have hs : Stays l.phase l.next? := by
    unfold next?
    split <;> rename_i hp <;> rw [hp]
    · exact stays_opening _
    · exact stays_beforeDoctype .beforeDoctype trivial (by simp) _
    · exact stays_inDoctype _
    · exact stays_beforeRoot .beforeRoot trivial (by simp) _
    · exact stays_content _ _
    · exact stays_inTag _ _
    · exact stays_afterRoot _
  exact hs t l' h

end Lexer

end Xml

end MapMarkup
