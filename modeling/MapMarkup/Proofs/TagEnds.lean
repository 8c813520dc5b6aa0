import MapMarkup.Proofs.Documents
import MapMarkup.Proofs.Phases

/-!
# Where tags end

Start tags and end tags end in `>`, so the lexer stands just past a `>` when it has given the token that ends a tag
(`Lexer.rest_of_next?`). No other tokens have events with locators, and the locators of these are the place to which the
lexer has come (`Reader.Takes.locator_eq`). Along the calls on a document, each event with a locator is therefore
placed just past a `>` of the document (`Reader.exists_tagEnd`).
-/

namespace MapMarkup

namespace Scan

variable {ε α β : Type} {x : Char} {P : α → Prop} {Q : β → Prop}

/-- Whenever the scan gives a value that satisfies `P`, the last character that it takes is `x`. -/
def EndsWith (x : Char) (P : α → Prop) (s : Scan ε α) : Prop :=
  ∀ c r, s c = .ok r → P r.value → ∃ used, c.rest = used ++ x :: r.next.rest

private theorem EndsWith.fail (e : ε) : EndsWith x P (Scan.fail e : Scan ε α) := by
  intro c r h
  simp [Scan.fail] at h

private theorem EndsWith.bind {s : Scan ε α} {f : α → Scan ε β} (hf : ∀ a, EndsWith x Q (f a)) :
    EndsWith x Q (s >>= f) := by
  intro c r h hr
  obtain ⟨r₁, -, r₂, h₂, hvalue, hnext⟩ := bind_eq_ok h
  obtain ⟨before, hbefore, -⟩ := r₁.reaches.split
  obtain ⟨used, hused⟩ := hf r₁.value r₁.next r₂ h₂ (hvalue ▸ hr)
  exact ⟨before ++ used, by rw [hbefore, hused, hnext, List.append_assoc]⟩

/-- What comes after the character only looks at where it stands. -/
private theorem EndsWith.bind_of_next {s : Scan ε α} {f : α → Scan ε β} (hs : EndsWith x (fun _ => True) s)
    (hf : ∀ a c r, f a c = .ok r → r.next = c) : EndsWith x Q (s >>= f) := by
  intro c r h _
  obtain ⟨r₁, h₁, r₂, h₂, -, hnext⟩ := bind_eq_ok h
  obtain ⟨used, hused⟩ := hs c r₁ h₁ trivial
  exact ⟨used, by rw [hused, hnext, hf r₁.value r₁.next r₂ h₂]⟩

/-- A scan that never gives such a value. -/
private theorem EndsWith.of_gives {s : Scan ε α} (h : Gives (fun a => ¬ P a) s) : EndsWith x P s :=
  fun c r hr hp => absurd hp (h c r hr)

end Scan

namespace Xml

namespace Lexeme

open Scan (EndsWith)

private theorem rest_of_charOf {wanted : List Char} {c : Cursor} {r : Scanned c Char} (h : charOf wanted c = .ok r) :
    c.rest = r.value :: r.next.rest ∧ r.value ∈ wanted := by
  simp only [charOf, Scan.ahead, Bind.bind] at h
  rcases hc : c.rest with _ | ⟨d, ds⟩
  · simp [hc, Scan.fail] at h
  · by_cases hd : wanted.contains d
    · simp only [hc, hd, Scan.take, ↓reduceIte, pure, Except.ok.injEq] at h
      subst h
      exact ⟨by simp [hc], List.contains_iff_mem.1 hd⟩
    · simp only [hc, hd, Scan.fail, Scan.position, Bool.false_eq_true, ↓reduceIte, reduceCtorEq] at h

theorem rest_of_char {x : Char} {c : Cursor} {r : Scanned c Unit} (h : char x c = .ok r) :
    c.rest = x :: r.next.rest := by
  obtain ⟨r₁, h₁, r₂, h₂, -, hnext⟩ := Scan.bind_eq_ok h
  obtain ⟨hrest, hx⟩ := rest_of_charOf h₁
  obtain rfl := Except.ok.inj h₂
  rw [hrest, List.mem_singleton.1 hx, hnext]

private theorem endsWith_char (x : Char) : EndsWith x (fun _ => True) (char x) :=
  fun _ _ h _ => ⟨[], rest_of_char h⟩

end Lexeme

namespace Production

open Scan (EndsWith Gives)
open Lexeme (endsWith_char)

private theorem endsWith_closeTag : EndsWith '>' (fun _ => True) closeTag := by
  refine .bind fun p => .bind fun _ => .bind fun n => .bind fun _ => (endsWith_char '>').bind_of_next ?_
  intro _ c r h
  obtain ⟨r₁, h₁, r₂, h₂, -, hnext⟩ := Scan.bind_eq_ok h
  obtain rfl := Except.ok.inj h₁
  obtain rfl := Except.ok.inj h₂
  exact hnext

private theorem endsWith_attributeSpec : EndsWith '>' (·.isTagEnd) attributeSpec := by
  refine .of_gives fun c r h => ?_
  obtain ⟨name, value, ht⟩ := gives_attributeSpec c r h
  simp [ht, Token.isTagEnd]

private theorem next_of_pure {t : Token} {c : Cursor} {r : Scanned c Token} (h : (pure t : Lexeme Token) c = .ok r) :
    r.next = c := by
  obtain rfl := Except.ok.inj h
  rfl

private theorem endsWith_inTag : EndsWith '>' (·.isTagEnd) inTag := by
  refine .bind fun gap => .bind fun cs => ?_
  split
  · split
    · exact .fail _
    · exact endsWith_attributeSpec
  · exact .bind fun _ => (endsWith_char '>').bind_of_next fun _ _ _ => next_of_pure
  · exact (endsWith_char '>').bind_of_next fun _ _ _ => next_of_pure
  · split
    · exact .bind fun _ => .fail _
    · exact endsWith_attributeSpec

end Production

/-! ### Tokens that end tags -/

namespace Lexer

open Scan (EndsWith)

private theorem rest_of_construct {α : Type} {kind : Construct} {s : Lexeme α} {token : α → Token × Phase} {c : Cursor}
    {t : Token} {l : Lexer} (hs : EndsWith '>' (fun a => (token a).1.isTagEnd) s)
    (h : construct kind s token c = .ok (some (t, l))) (ht : t.isTagEnd) :
    ∃ used, c.rest = used ++ '>' :: l.cursor.rest := by
  obtain ⟨r, hr, rfl, rfl⟩ := construct_eq_ok h
  exact hs c r hr ht

/-- In the content of an element, tags end with end tags only. -/
private theorem rest_of_content {depth : Nat} {c : Cursor} {t : Token} {l : Lexer}
    (h : content depth c = .ok (some (t, l))) (ht : t.isTagEnd) : ∃ used, c.rest = used ++ '>' :: l.cursor.rest := by
  unfold content at h
  split at h
  · simp at h
  · split at h
    · split at h
      · rename_i lexed haside
        subst h
        obtain ⟨rfl, -⟩ := eq_of_aside? haside
        simp [Token.isTagEnd] at ht
      · split at h
        · refine rest_of_construct (.of_gives fun c r hr => ?_) h ht
          obtain ⟨content, hcontent⟩ := Production.gives_cdataSection c r hr
          simp [hcontent, Token.isTagEnd]
        · split at h
          · simp at h
          · split at h
            · exact rest_of_construct (fun c r hr _ => Production.endsWith_closeTag c r hr trivial) h ht
            · refine rest_of_construct (.of_gives fun c r hr => ?_) h ht
              obtain ⟨name, span, hname⟩ := Production.gives_elementStart c r hr
              simp [hname, Token.isTagEnd]
    · refine rest_of_construct (.of_gives fun c r hr => ?_) h ht
      obtain ⟨content, hcontent⟩ := Production.gives_textRun c r hr
      simp [hcontent, Token.isTagEnd]

/-- The lexer has just passed a `>` when a tag has ended. -/
theorem rest_of_next? {l l' : Lexer} {t : Token} (h : l.next? = .ok (some (t, l'))) (ht : t.isTagEnd) :
    ∃ used, l.cursor.rest = used ++ '>' :: l'.cursor.rest := by
  have hgoes := goes_of_next? h
  generalize l'.phase = after at hgoes
  unfold next? at h
  cases hphase : l.phase with
  | content depth =>
    rw [hphase] at h
    exact rest_of_content h ht
  | inTag depth =>
    simp only [hphase, inTag] at h
    split at h
    · simp at h
    · exact rest_of_construct Production.endsWith_inTag h ht
  | opening | beforeDoctype | inDoctype | beforeRoot | afterRoot =>
    rw [hphase] at hgoes
    cases hgoes <;> simp [Token.isTagEnd] at ht

end Lexer

/-! ### Calls that end tags -/

namespace Reader

theorem locator?_of_mem_opening {r : Reader} {e : Event} (h : e ∈ r.opening) : e.locator? = none := by
  unfold opening at h
  split at h
  · obtain rfl := List.mem_singleton.1 h
    rfl
  · simp at h

theorem afterCalls_succ_of_ne_token {r : Reader} {k : Nat} (h : (r.call k).2 ≠ .token) :
    r.afterCalls (k + 1) = { r.afterCalls k with stage := .finished } ∧ ∀ e ∈ (r.call k).1, e.locator? = none := by
  show (r.afterCalls k).advance.1 = _ ∧ ∀ e ∈ (r.afterCalls k).advance.2.1, _
  by_cases hs : (r.afterCalls k).stage = .finished
  · rw [advance_of_finished hs]
    exact ⟨by rw [← hs], by simp⟩
  · rcases advance_cases hs with ⟨e, he⟩ | ⟨-, he⟩ | ⟨t, lexer, opened, entities, events, -, -, he⟩
    · rw [he]
      exact ⟨rfl, fun e => locator?_of_mem_opening⟩
    · rw [he]
      refine ⟨rfl, fun e he => ?_⟩
      rcases List.mem_append.1 he with he | he
      · exact locator?_of_mem_opening he
      · obtain rfl := List.mem_singleton.1 he
        rfl
    · exact absurd (congrArg (·.2.2) he) h

/-- The reader goes forward in the document, under its name. -/
theorem reaches_afterCalls (source : List Char) (systemId : Option String) (k : Nat) :
    (Cursor.start source).Reaches ((start source systemId).afterCalls k).lexer.cursor ∧
      ((start source systemId).afterCalls k).systemId = systemId := by
  induction k with
  | zero => exact ⟨⟨_, rfl⟩, rfl⟩
  | succ k ih =>
    by_cases htoken : ((start source systemId).call k).2 = .token
    · obtain ⟨t, lexer, opened, entities, events, -, hl, -, -, hafter⟩ := exists_of_call_token htoken
      rw [hafter]
      exact ⟨ih.1.trans (Lexer.reaches_of_next? hl), ih.2⟩
    · rw [(afterCalls_succ_of_ne_token htoken).1]
      exact ih

/-- An event with a locator comes from a call that has read the end of a tag, and the place is that
just past its `>`. -/
theorem exists_tagEnd (source : List Char) (systemId : Option String) {k : Nat} {e : Event} {locator : Locator} :
    let r := start source systemId
    e ∈ (r.call k).1 → e.locator? = some locator →
      ∃ t before, r.tokenOfCall k = some t ∧ t.isTagEnd ∧
        source = before ++ '>' :: (r.afterCalls (k + 1)).lexer.cursor.rest ∧
        locator = let p := Position.start.after (before ++ ['>']); ⟨p.line, p.column, systemId, none⟩ := by
  intro r he hl
  by_cases htoken : (r.call k).2 = .token
  · obtain ⟨t, lexer, opened, entities, events, ht, hnext, htake, hevents, hafter⟩ := exists_of_call_token htoken
    rw [hevents, List.mem_append] at he
    have he : e ∈ events := he.resolve_left fun he => by simp [locator?_of_mem_opening he] at hl
    obtain ⟨hend, hplace⟩ := (takes_of_takeToken htake).locator_eq he hl
    obtain ⟨hreached, hid⟩ := reaches_afterCalls source systemId k
    obtain ⟨past, hpast, hposition⟩ := (hreached.trans (Lexer.reaches_of_next? hnext)).split
    obtain ⟨read, hread, -⟩ := hreached.split
    obtain ⟨used, hused⟩ := Lexer.rest_of_next? hnext hend
    have hsource : source = (read ++ used) ++ '>' :: lexer.cursor.rest := by
      rw [List.append_assoc, ← hused, ← hread]
      rfl
    -- What has been passed ends in the `>`.
    have hbefore : past = read ++ used ++ ['>'] := by
      have : past ++ lexer.cursor.rest = (read ++ used ++ ['>']) ++ lexer.cursor.rest := by
        rw [← hpast, List.append_assoc _ ['>'], List.singleton_append]
        exact hsource
      exact List.append_cancel_right this
    refine ⟨t, read ++ used, ht, hend, by rw [hafter]; exact hsource, ?_⟩
    rw [hplace, ← hbefore]
    show Locator.mk lexer.cursor.position.line lexer.cursor.position.column (r.afterCalls k).systemId none = _
    rw [hid, hposition]
    rfl
  · rw [(afterCalls_succ_of_ne_token htoken).2 e he] at hl
    simp at hl

theorem exists_call_of_mem_events {source : List Char} {systemId : Option String} {e : Event}
    (h : e ∈ (start source systemId).events) : ∃ k, e ∈ ((start source systemId).call k).1 := by
  obtain ⟨i, -, outcome, ho, hstops⟩ := exists_stopsAt source systemId
  rw [events_eq hstops ho, eventsOfCalls_eq] at h
  obtain ⟨k, -, hk⟩ := List.mem_flatMap.1 h
  exact ⟨k, hk⟩

end Reader

end Xml

end MapMarkup
