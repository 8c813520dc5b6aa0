import MapMarkup.Proofs.EntityDeclarations
import MapMarkup.Proofs.OpenTags
import MapMarkup.Proofs.TagEnds

/-!
# Where tokens stand

A passage is a part of another one if its text stands in the text of the other one at the place that its offset says
(`Passage.IsPartOf`). What a scan gives is read from the passage that it moves over: its names and values are parts of
this passage, and the span of a tag is that of the part that is the tag (`Scan.Reads`, `Token.ReadFrom`). The lexer
gives each token for a passage that it moves over, and refuses the text only at a place that it has reached
(`Lexer.tells_next?`). So all tokens of a document are read from the document (`Reader.readFrom_of_mem_tokensOfCalls`).
-/

namespace MapMarkup

namespace Xml

/-! ### Parts of passages -/

/-- The text of the passage stands in that of the other one, where its offset says. -/
def Passage.IsPartOf (p whole : Passage) : Prop :=
  ∃ before after, whole.chars = before ++ p.chars ++ after ∧ p.offset = whole.offset + utf8Size before

namespace Passage.IsPartOf

variable {p q whole : Passage}

private theorem refl (p : Passage) : p.IsPartOf p :=
  ⟨[], [], by simp, by simp⟩

theorem trans (hp : p.IsPartOf q) (hq : q.IsPartOf whole) : p.IsPartOf whole := by
  obtain ⟨before, after, hchars, hoffset⟩ := hp
  obtain ⟨before', after', hchars', hoffset'⟩ := hq
  refine ⟨before' ++ before, after ++ after', ?_, ?_⟩
  · rw [hchars', hchars]
    simp only [List.append_assoc]
  · rw [hoffset, hoffset', utf8Size_append, Nat.add_assoc]

theorem left (o : Nat) (cs ds : List Char) : IsPartOf ⟨o, cs⟩ ⟨o, cs ++ ds⟩ :=
  ⟨[], ds, rfl, rfl⟩

theorem right (o : Nat) (cs ds : List Char) : IsPartOf ⟨o + utf8Size cs, ds⟩ ⟨o, cs ++ ds⟩ :=
  ⟨cs, [], by simp, rfl⟩

theorem utf8Size_le (h : p.IsPartOf q) : utf8Size p.chars ≤ utf8Size q.chars := by
  obtain ⟨before, after, hchars, -⟩ := h
  rw [hchars, utf8Size_append, utf8Size_append]
  omega

end Passage.IsPartOf

private theorem Passage.span_append (o : Nat) (cs ds : List Char) :
    span ⟨o, cs ++ ds⟩ = ⟨o, (span ⟨o + utf8Size cs, ds⟩).high⟩ := by
  simp [span, Nat.add_assoc]

/-- The name is spelled so: either there is no qualifier, and it is empty and stands in front of the name, or there is a
colon between the qualifier and the rest. -/
inductive QName.ReadFrom : Passage → QName → Prop
  | plain (spelled : Passage) : ReadFrom spelled ⟨⟨spelled.offset, []⟩, spelled⟩
  | qualified (o : Nat) (qualifier base : List Char) :
    ReadFrom ⟨o, qualifier ++ ':' :: base⟩ ⟨⟨o, qualifier⟩, ⟨o + utf8Size qualifier + 1, base⟩⟩

/-- The token has been read from the passage: what it keeps of the text are parts of the passage, and a span is that of
the part that is the tag, or its beginning. -/
inductive Token.ReadFrom (whole : Passage) : Token → Prop
  | aside : ReadFrom whole .aside
  | entity {name : Passage} {value : Option Passage} (hname : name.IsPartOf whole)
    (hvalue : ∀ p, value = some p → p.IsPartOf whole) : ReadFrom whole (.entity name value)
  | elementStart {o : Nat} {spelled : List Char} {name : QName} (hpart : Passage.IsPartOf ⟨o, '<' :: spelled⟩ whole)
    (hname : name.ReadFrom ⟨o + 1, spelled⟩) :
    ReadFrom whole (.elementStart name (Passage.span ⟨o, '<' :: spelled⟩))
  | attr {spelled value : Passage} {name : QName} (hpart : spelled.IsPartOf whole) (hname : name.ReadFrom spelled)
    (hvalue : value.IsPartOf whole) : ReadFrom whole (.attribute name value)
  | openEnd : ReadFrom whole .openEnd
  | emptyEnd : ReadFrom whole .emptyEnd
  | closeTag {o : Nat} {spelled gap : List Char} {name : QName}
    (hpart : Passage.IsPartOf ⟨o, "</".toList ++ (spelled ++ gap ++ ['>'])⟩ whole)
    (hname : name.ReadFrom ⟨o + 2, spelled⟩) (hgap : ∀ c ∈ gap, isSpace c) :
    ReadFrom whole (.closeTag name (Passage.span ⟨o, "</".toList ++ (spelled ++ gap ++ ['>'])⟩))
  | text {content : Passage} (hcontent : content.IsPartOf whole) : ReadFrom whole (.text content)
  | cdata {content : Passage} (hcontent : content.IsPartOf whole) : ReadFrom whole (.cdata content)

theorem Token.ReadFrom.mono {t : Token} {part whole : Passage} (h : t.ReadFrom part) (hpart : part.IsPartOf whole) :
    t.ReadFrom whole := by
  cases h with
  | aside => exact .aside
  | entity hname hvalue => exact .entity (hname.trans hpart) fun p hp => (hvalue p hp).trans hpart
  | elementStart hstart hname => exact .elementStart (hstart.trans hpart) hname
  | attr hspelled hname hvalue => exact .attr (hspelled.trans hpart) hname (hvalue.trans hpart)
  | openEnd => exact .openEnd
  | emptyEnd => exact .emptyEnd
  | closeTag htag hname hgap => exact .closeTag (htag.trans hpart) hname hgap
  | text hcontent => exact .text (hcontent.trans hpart)
  | cdata hcontent => exact .cdata (hcontent.trans hpart)

end Xml

open Xml (Passage)

/-- A cursor that has been reached stands behind the text that has been moved over. -/
theorem Cursor.Reaches.offset_eq {c d : Cursor} (h : c.Reaches d) {used : List Char} (hused : c.rest = used ++ d.rest) :
    d.position.offset = c.position.offset + utf8Size used := by
  obtain ⟨moved, hmoved, hposition⟩ := h.split
  obtain rfl : moved = used := List.append_cancel_right (hmoved.symm.trans hused)
  rw [hposition, Position.offset_after]

/-! ### Scans -/

namespace Scan

variable {ε α β : Type} {P R : Passage → α → Prop} {Q : Passage → β → Prop}

/-- Whatever value the scan gives, it has been read from the passage that the scan moves over. -/
def Reads (R : Passage → α → Prop) (s : Scan ε α) : Prop :=
  ∀ c r, s c = .ok r → ∃ used, c.rest = used ++ r.next.rest ∧ R ⟨c.position.offset, used⟩ r.value

private theorem Reads.fail (e : ε) : Reads R (Scan.fail e : Scan ε α) := by
  intro c r h
  simp [Scan.fail] at h

private theorem Reads.pure {a : α} (h : ∀ o, R ⟨o, []⟩ a) : Reads R (Pure.pure a : Scan ε α) := by
  intro c r hr
  obtain rfl := Except.ok.inj hr
  exact ⟨[], rfl, h _⟩

theorem Reads.mono {s : Scan ε α} (hs : Reads P s) (h : ∀ w a, P w a → R w a) : Reads R s := by
  intro c r hr
  obtain ⟨used, hused, hP⟩ := hs c r hr
  exact ⟨used, hused, h _ _ hP⟩

/-- A scan of which no more is known than what its values look like. -/
theorem Reads.of_gives {P : α → Prop} {s : Scan ε α} (hs : Gives P s) : Reads (fun _ => P) s := by
  intro c r hr
  obtain ⟨used, hused, -⟩ := r.reaches.split
  exact ⟨used, hused, hs c r hr⟩

private theorem reads_any {s : Scan ε α} : Reads (fun _ _ => True) s :=
  .of_gives fun _ _ _ => trivial

/-- The passage that two scans in a row move over is that of the first one with that of the second one behind it. -/
private theorem Reads.bind {s : Scan ε α} {f : α → Scan ε β} {S : α → Passage → β → Prop} (hs : Reads P s)
    (hf : ∀ a, Reads (S a) (f a))
    (h : ∀ o cs ds a b, P ⟨o, cs⟩ a → S a ⟨o + utf8Size cs, ds⟩ b → Q ⟨o, cs ++ ds⟩ b) : Reads Q (s >>= f) := by
  intro c r hr
  obtain ⟨r₁, h₁, r₂, h₂, hvalue, hnext⟩ := bind_eq_ok hr
  obtain ⟨cs, hcs, hP⟩ := hs c r₁ h₁
  obtain ⟨ds, hds, hS⟩ := hf r₁.value r₁.next r₂ h₂
  refine ⟨cs ++ ds, ?_, ?_⟩
  · rw [hcs, hds, hnext, List.append_assoc]
  · rw [r₁.reaches.offset_eq hcs] at hS
    rw [hvalue]
    exact h _ cs ds _ _ hP hS

/-- What is read from a part is read from the whole. -/
private theorem Reads.behind {s : Scan ε α} {f : α → Scan ε β} (hf : ∀ a, Reads Q (f a))
    (hmono : ∀ p w b, p.IsPartOf w → Q p b → Q w b) : Reads Q (s >>= f) :=
  reads_any.bind hf fun o cs ds _ b _ hb => hmono _ _ b (.right o cs ds) hb

private theorem reads_position :
    Reads (fun w p => w.chars = [] ∧ p.offset = w.offset) (position : Scan ε Position) := by
  intro c r h
  obtain rfl := Except.ok.inj h
  exact ⟨[], rfl, rfl, rfl⟩

private theorem reads_ahead : Reads (fun w _ => w.chars = []) (ahead : Scan ε (List Char)) := by
  intro c r h
  obtain rfl := Except.ok.inj h
  exact ⟨[], rfl, rfl⟩

private theorem reads_take (n : Nat) : Reads (fun w cs => w.chars = cs) (take n : Scan ε (List Char)) := by
  intro c r h
  obtain rfl := Except.ok.inj h
  exact ⟨c.rest.take n, (List.take_append_drop n c.rest).symm, rfl⟩

/-- A scan that looks at the text ahead first. -/
private theorem Reads.of_ahead {f : List Char → Scan ε β} (hf : ∀ cs, Reads Q (f cs)) : Reads Q (ahead >>= f) :=
  reads_ahead.bind hf fun o cs ds _ b hcs hb => by
    obtain rfl : cs = [] := hcs
    exact hb

end Scan

namespace Xml

/-! ### The smallest parts -/

namespace Lexeme

open Scan (Reads)

private theorem reads_passage {s : Lexeme (List Char)} (hs : Reads (fun w cs => w.chars = cs) s) :
    Reads (fun w p => p = w) (passage s) := by
  refine Scan.reads_position.bind (S := fun q w p => p = ⟨q.offset, w.chars⟩) (fun q => ?_) ?_
  · refine hs.bind (S := fun cs w p => w.chars = [] ∧ p = ⟨q.offset, cs⟩) (fun cs => .pure fun _ => ⟨rfl, rfl⟩) ?_
    rintro o cs ds _ _ rfl ⟨rfl, rfl⟩
    rw [List.append_nil]
  · rintro o cs ds q _ ⟨rfl, hq⟩ rfl
    rw [hq, List.nil_append]

private theorem reads_takeWhile (p : Char → Bool) : Reads (fun w cs => w.chars = cs) (Scan.takeWhile p : Lexeme _) :=
  .of_ahead fun _ => Scan.reads_take _

private theorem reads_char (x : Char) : Reads (fun w _ => w.chars = [x]) (char x) :=
  fun _ _ h => ⟨[x], rest_of_char h, rfl⟩

private theorem reads_text (s : String) : Reads (fun w _ => w.chars = s.toList) (text s) :=
  fun _ _ h => ⟨s.toList, rest_of_text h, rfl⟩

private theorem reads_spaces : Reads (fun w _ => ∀ c ∈ w.chars, isSpace c) spaces := by
  intro c r h
  obtain ⟨-, gap, hgap, hrest⟩ := rest_of_spaces h
  exact ⟨gap, hrest, hgap⟩

private theorem reads_name : Reads (fun w p => p = w) name := by
  refine .of_ahead fun cs => ?_
  split
  · exact .fail _
  · split
    · exact reads_passage (reads_takeWhile isNameChar)
    · exact .fail _

private theorem reads_charsUntil (stop : List Char → Bool) : Reads (fun w p => p = w) (charsUntil stop) := by
  intro c r h
  rw [charsUntil_eq] at h
  split at h
  · simp at h
  · obtain rfl := Except.ok.inj h
    exact ⟨_, (List.take_append_drop _ c.rest).symm, rfl⟩

private theorem reads_quotedText : Reads (fun w p => p.IsPartOf w) quotedText := by
  refine .behind (fun mark => ?_) fun _ _ _ hpart h => h.trans hpart
  refine (reads_passage (reads_takeWhile _)).bind (S := fun p _ q => q = p) ?_ ?_
  · exact fun p => .of_gives (.bind fun _ => .pure rfl)
  · rintro o cs ds _ _ rfl rfl
    exact .left o cs ds

private theorem reads_qname : Reads QName.ReadFrom qname := by
  refine (reads_passage (reads_takeWhile isNameChar)).bind (S := fun run w n => w.chars = [] ∧ n.ReadFrom run) ?_ ?_
  · intro run
    dsimp only
    split
    · split
      · exact .pure fun _ => ⟨rfl, .plain run⟩
      · exact .fail _
    · rename_i d base hrun
      split
      · refine .pure fun _ => ⟨rfl, ?_⟩
        -- What follows the qualifier is the colon in front of which the qualifier ends.
        have hd : d = ':' := by
          have := List.head?_dropWhile_not (· ≠ ':') run.chars
          rw [hrun] at this
          simpa using this
        have hchars : run = ⟨run.offset, run.chars.takeWhile (· ≠ ':') ++ ':' :: base⟩ := by
          rw [hd] at hrun
          rw [← hrun, List.takeWhile_append_dropWhile]
        have hread := QName.ReadFrom.qualified run.offset (run.chars.takeWhile (· ≠ ':')) base
        rwa [← hchars] at hread
      · exact .fail _
  · rintro o cs ds _ n rfl ⟨rfl, hn⟩
    rwa [List.append_nil]

end Lexeme

/-! ### Constructs -/

namespace Production

open Scan (Gives Reads)
open Lexeme

private theorem reads_of_aside {s : Lexeme Token} (hs : Gives (· = .aside) s) : Reads Token.ReadFrom s :=
  (Reads.of_gives hs).mono fun _ _ ht => ht ▸ .aside

private theorem readFrom_mono (part whole : Passage) (t : Token) (hpart : part.IsPartOf whole) (h : t.ReadFrom part) :
    t.ReadFrom whole :=
  h.mono hpart

private theorem reads_cdataSection : Reads Token.ReadFrom cdataSection := by
  refine .behind (fun _ => ?_) readFrom_mono
  refine (reads_charsUntil _).bind (S := fun p _ t => t = .cdata p) ?_ ?_
  · exact fun p => .of_gives (.bind fun _ => .pure rfl)
  · rintro o cs ds _ _ rfl rfl
    exact .cdata (.left o cs ds)

private theorem reads_textRun : Reads Token.ReadFrom textRun := by
  refine (reads_charsUntil _).bind (S := fun p _ t => t = .text p) (fun p => .of_gives ?_) ?_
  · split
    · exact .fail _
    · exact .pure rfl
  · rintro o cs ds _ _ rfl rfl
    exact .text (.left o cs ds)

private theorem reads_entityValue (general : Bool) :
    Reads (fun w value => ∀ p, value = some p → p.IsPartOf w) (entityValue general) := by
  refine .of_ahead fun cs => ?_
  dsimp only
  split
  · exact .fail _
  · split
    · refine reads_quotedText.bind (S := fun p _ value => value = some p) (fun p => .pure fun _ => rfl) ?_
      rintro o cs ds p _ hp rfl q hq
      obtain rfl := Option.some.inj hq
      exact hp.trans (.left o cs ds)
    · refine (Reads.of_gives (P := (· = none)) ?_).mono fun _ _ hnone _ hp => by simp [hnone] at hp
      split
      · refine .bind fun found => ?_
        split
        · split
          · exact .bind fun _ => .bind fun _ => .pure rfl
          · exact .pure rfl
        · exact .fail _
      · exact .bind fun _ => .fail _

private theorem reads_declared (general : Bool) : Reads Token.ReadFrom (declared general) := by
  have hrest : ∀ n, Reads (fun w t => ∃ value, t = .entity n value ∧ ∀ p, value = some p → p.IsPartOf w) (do
      someSpace
      let value ← entityValue general
      spaces
      char '>'
      return Token.entity n value) := by
    intro n
    refine .behind (fun _ => ?_) ?_
    · refine (reads_entityValue general).bind (S := fun value _ t => t = .entity n value) ?_ ?_
      · exact fun value => .of_gives (.bind fun _ => .bind fun _ => .pure rfl)
      · rintro o cs ds value _ hvalue rfl
        exact ⟨value, rfl, fun p hp => (hvalue p hp).trans (.left o cs ds)⟩
    · rintro part w _ hpart ⟨value, rfl, hvalue⟩
      exact ⟨value, rfl, fun p hp => (hvalue p hp).trans hpart⟩
  refine reads_name.bind hrest ?_
  rintro o cs ds _ _ rfl ⟨value, rfl, hvalue⟩
  exact .entity (.left o cs ds) fun p hp => (hvalue p hp).trans (.right o cs ds)

private theorem reads_entityDeclaration : Reads Token.ReadFrom entityDeclaration := by
  rw [entityDeclaration_eq]
  refine .behind (fun _ => .behind (fun _ => .behind (fun parameter => ?_) readFrom_mono) readFrom_mono) readFrom_mono
  split
  · exact .behind (fun _ => .behind (fun _ => reads_declared _) readFrom_mono) readFrom_mono
  · exact reads_declared _

/-- A value that is made from the place at which a scan ends. -/
private theorem reads_end {α : Type} (f : Nat → α) :
    Reads (fun w a => w.chars = [] ∧ a = f w.offset) (do return f (← Scan.position).offset : Lexeme α) := by
  have hpure : ∀ q : Position, Reads (fun w a => w.chars = [] ∧ a = f q.offset) (pure (f q.offset) : Lexeme α) :=
    fun q => .pure fun _ => ⟨rfl, rfl⟩
  refine Scan.reads_position.bind hpure ?_
  rintro o cs ds q _ ⟨rfl, hq⟩ ⟨rfl, rfl⟩
  exact ⟨rfl, by rw [hq]⟩

/-- A construct that keeps the place at which it starts. -/
private theorem reads_of_position {f : Position → Lexeme Token}
    (hf : ∀ p, Reads (fun w t => p.offset = w.offset → t.ReadFrom w) (f p)) :
    Reads Token.ReadFrom (do f (← Scan.position)) := by
  refine Scan.reads_position.bind hf ?_
  rintro o cs ds p t ⟨rfl, hp⟩ ht
  exact ht hp

private theorem reads_elementStart : Reads Token.ReadFrom elementStart := by
  refine reads_of_position fun p => ?_
  have hname : Reads (fun w t => ∃ n, t = .elementStart n ⟨p.offset, w.span.high⟩ ∧ n.ReadFrom w) (do
      let n ← qname
      return Token.elementStart n ⟨p.offset, (← Scan.position).offset⟩) := by
    refine reads_qname.bind (fun n => reads_end fun high => Token.elementStart n ⟨p.offset, high⟩) ?_
    rintro o cs ds n _ hn ⟨rfl, rfl⟩
    exact ⟨n, by rw [List.append_nil]; rfl, by rwa [List.append_nil]⟩
  refine (reads_char '<').bind (fun _ => hname) ?_
  rintro o _ ds _ _ rfl ⟨n, rfl, hn⟩ hp
  dsimp only at hp
  rw [hp, ← Passage.span_append]
  exact .elementStart (.refl _) hn

private theorem reads_closeTag : Reads Token.ReadFrom closeTag := by
  refine reads_of_position fun p => ?_
  have hend : ∀ n, Reads (fun w t => w.chars = ['>'] ∧ t = .closeTag n ⟨p.offset, w.span.high⟩) (do
      char '>'
      return Token.closeTag n ⟨p.offset, (← Scan.position).offset⟩) := by
    intro n
    refine (reads_char '>').bind (fun _ => reads_end fun high => Token.closeTag n ⟨p.offset, high⟩) ?_
    rintro o _ ds _ _ rfl ⟨rfl, rfl⟩
    exact ⟨rfl, rfl⟩
  have hgap : ∀ n, Reads (fun w t => ∃ gap, w.chars = gap ++ ['>'] ∧ (∀ c ∈ gap, isSpace c) ∧
      t = .closeTag n ⟨p.offset, w.span.high⟩) (do
        spaces
        char '>'
        return Token.closeTag n ⟨p.offset, (← Scan.position).offset⟩) := by
    intro n
    refine reads_spaces.bind (fun _ => hend n) ?_
    rintro o gap ds _ _ hgap ⟨rfl, rfl⟩
    exact ⟨gap, rfl, hgap, by simp [Passage.span, Nat.add_assoc]⟩
  have hname : Reads (fun w t => ∃ n spelled gap, w.chars = spelled ++ gap ++ ['>'] ∧ n.ReadFrom ⟨w.offset, spelled⟩ ∧
      (∀ c ∈ gap, isSpace c) ∧ t = .closeTag n ⟨p.offset, w.span.high⟩) (do
        let n ← qname
        spaces
        char '>'
        return Token.closeTag n ⟨p.offset, (← Scan.position).offset⟩) := by
    refine reads_qname.bind hgap ?_
    rintro o spelled _ n _ hn ⟨gap, rfl, hgap, rfl⟩
    exact ⟨n, spelled, gap, (List.append_assoc ..).symm, hn, hgap, by simp [Passage.span, Nat.add_assoc]⟩
  refine (reads_text "</").bind (fun _ => hname) ?_
  rintro o _ ds _ _ rfl ⟨n, spelled, gap, rfl, hn, hgap, rfl⟩ hp
  dsimp only at hp
  rw [hp, ← Passage.span_append]
  exact .closeTag (.refl _) hn hgap

private theorem reads_attributeSpec : Reads Token.ReadFrom attributeSpec := by
  have hrest : ∀ n, Reads (fun w t => ∃ value, t = .attribute n value ∧ value.IsPartOf w) (do
      equals
      let mark ← quote
      let value ← charsUntil fun cs => cs.head? = some mark || cs.head? = some '<'
      char mark
      return Token.attribute n value) := by
    intro n
    have hmono : ∀ p w t, p.IsPartOf w → (∃ value, t = .attribute n value ∧ value.IsPartOf p) →
        ∃ value, t = Token.attribute n value ∧ value.IsPartOf w := by
      rintro p w _ hpart ⟨value, rfl, hvalue⟩
      exact ⟨value, rfl, hvalue.trans hpart⟩
    refine .behind (fun _ => .behind (fun mark => ?_) hmono) hmono
    refine (reads_charsUntil _).bind (S := fun p _ t => t = .attribute n p) ?_ ?_
    · exact fun p => .of_gives (.bind fun _ => .pure rfl)
    · rintro o cs ds _ _ rfl rfl
      exact ⟨_, rfl, .left o cs ds⟩
  refine reads_qname.bind hrest ?_
  rintro o cs ds n _ hn ⟨value, rfl, hvalue⟩
  exact .attr (.left o cs ds) hn (hvalue.trans (.right o cs ds))

private theorem reads_inTag : Reads Token.ReadFrom inTag := by
  refine .behind (fun gap => .of_ahead fun cs => ?_) readFrom_mono
  split
  · split
    · exact .fail _
    · exact reads_attributeSpec
  · exact .behind (fun _ => .behind (fun _ => .pure fun _ => .emptyEnd) readFrom_mono) readFrom_mono
  · exact .behind (fun _ => .pure fun _ => .openEnd) readFrom_mono
  · split
    · exact .behind (fun _ => .fail _) readFrom_mono
    · exact reads_attributeSpec

end Production

/-! ### Tokens -/

namespace Lexer

open Scan (Reads)

/-- What a lexer gives from a cursor on: there may be a token, which has been read from the passage that the lexer moves
over, or an error, whose place has been reached. -/
inductive Tells (c : Cursor) : Lexed → Prop
  | none : Tells c (.ok none)
  | error {d : Cursor} {e : Malformed} (hd : c.Reaches d) (he : e.position = d.position) : Tells c (.error e)
  | token {t : Token} {l : Lexer} {used : List Char} (hused : c.rest = used ++ l.cursor.rest)
    (ht : t.ReadFrom ⟨c.position.offset, used⟩) : Tells c (.ok (some (t, l)))

private theorem Tells.of_reaches {c d : Cursor} {lexed : Lexed} (h : Tells d lexed) (hd : c.Reaches d) :
    Tells c lexed := by
  cases h with
  | none => exact .none
  | error hd' he => exact .error (hd.trans hd') he
  | token hused ht =>
    obtain ⟨skipped, hskipped, -⟩ := hd.split
    rw [hd.offset_eq hskipped] at ht
    exact .token (by rw [hskipped, hused, List.append_assoc]) (ht.mono (.right _ skipped _))

private theorem tells_unknownToken (c : Cursor) : Tells c (.error (.unknownToken c.position)) :=
  .error (.refl c) rfl

private theorem tells_construct {α : Type} {kind : Construct} {s : Lexeme α} {token : α → Token × Phase} (c : Cursor)
    (hs : Reads (fun w a => (token a).1.ReadFrom w) s) : Tells c (construct kind s token c) := by
  unfold construct
  split
  · exact .error (.refl c) rfl
  · rename_i r hr
    obtain ⟨used, hused, ht⟩ := hs c r hr
    exact .token hused ht

private theorem tells_aside? {phase : Phase} {c : Cursor} {lexed : Lexed} (h : aside? phase c = some lexed) :
    Tells c lexed := by
  unfold aside? at h
  split at h
  · obtain rfl := Option.some.inj h
    exact tells_construct c (Production.reads_of_aside Production.gives_comment)
  · split at h
    · obtain rfl := Option.some.inj h
      exact tells_unknownToken c
    · split at h
      · obtain rfl := Option.some.inj h
        exact tells_construct c (Production.reads_of_aside Production.gives_instruction)
      · simp at h

private theorem tells_beforeRoot (c : Cursor) : Tells c (beforeRoot c) := by
  refine Tells.of_reaches ?_ (reaches_skipSpaces c)
  unfold beforeRoot
  dsimp only
  split
  · exact .none
  · split
    · rename_i h; exact tells_aside? h
    · split
      · exact tells_construct _ Production.reads_elementStart
      · exact tells_unknownToken _

private theorem tells_beforeDoctype (c : Cursor) : Tells c (beforeDoctype c) := by
  refine Tells.of_reaches ?_ (reaches_skipSpaces c)
  unfold beforeDoctype
  dsimp only
  split
  · exact tells_construct _ (Scan.reads_any.mono fun _ _ _ => Token.ReadFrom.aside)
  · split
    · rename_i h; exact tells_aside? h
    · exact tells_beforeRoot _

private theorem tells_skipDeclarations {c : Cursor} {e : Malformed} (h : skipDeclarations c = .error e) :
    ∃ d, c.Reaches d ∧ e.position = d.position := by
  fun_induction skipDeclarations c with
  | case1 c e =>
    obtain rfl := Except.error.inj h
    exact ⟨_, reaches_skipSpaces c, rfl⟩
  | case2 c e _ _ _ _ ih =>
    obtain ⟨d, hd, he⟩ := ih h
    exact ⟨d, (reaches_skipSpaces c).trans (.trans ⟨_, rfl⟩ hd), he⟩
  | case3 c e => simp at h

private theorem tells_inDoctype (c : Cursor) : Tells c (inDoctype c) := by
  unfold inDoctype
  split
  · rename_i e he
    obtain ⟨d, hd, hposition⟩ := tells_skipDeclarations he
    exact .error hd hposition
  · rename_i d hd
    refine Tells.of_reaches ?_ (reaches_of_skipDeclarations hd)
    unfold inDoctypeAt
    split
    · exact .none
    · split
      · exact tells_construct d Production.reads_entityDeclaration
      · split
        · exact tells_construct d (Production.reads_of_aside Production.gives_doctypeEnd)
        · split
          · rename_i h; exact tells_aside? h
          · exact tells_unknownToken d

private theorem tells_content (depth : Nat) (c : Cursor) : Tells c (content depth c) := by
  unfold content
  split
  · exact .none
  · split
    · split
      · rename_i h; exact tells_aside? h
      · split
        · exact tells_construct c Production.reads_cdataSection
        · split
          · exact tells_unknownToken c
          · split
            · exact tells_construct c Production.reads_closeTag
            · exact tells_construct c Production.reads_elementStart
    · exact tells_construct c Production.reads_textRun

/-- Every token has been read from the text that the lexer moves over, and markup is found malformed at a place that
the lexer has come to. -/
theorem tells_next? (l : Lexer) : Tells l.cursor l.next? := by
  unfold next?
  split
  · unfold opening
    split
    · exact tells_construct _ (Production.reads_of_aside Production.gives_declaration)
    · exact tells_beforeDoctype _
  · exact tells_beforeDoctype _
  · exact tells_inDoctype _
  · exact tells_beforeRoot _
  · exact tells_content _ _
  · unfold inTag
    split
    · exact .none
    · exact tells_construct _ Production.reads_inTag
  · unfold afterRoot
    refine Tells.of_reaches ?_ (reaches_skipSpaces _)
    dsimp only
    split
    · exact .none
    · split
      · rename_i h; exact tells_aside? h
      · exact tells_unknownToken _

theorem readFrom_of_next? {l l' : Lexer} {t : Token} (h : l.next? = .ok (some (t, l'))) :
    ∃ used, l.cursor.rest = used ++ l'.cursor.rest ∧ t.ReadFrom ⟨l.cursor.position.offset, used⟩ := by
  have htells := tells_next? l
  rw [h] at htells
  cases htells with
  | token hused ht => exact ⟨_, hused, ht⟩

theorem reaches_of_error {l : Lexer} {e : Malformed} (h : l.next? = .error e) :
    ∃ d, l.cursor.Reaches d ∧ e.position = d.position := by
  have htells := tells_next? l
  rw [h] at htells
  cases htells with
  | error hd he => exact ⟨_, hd, he⟩

end Lexer

/-! ### Documents -/

/-- The document as a passage. -/
def Passage.ofSource (source : List Char) : Passage := ⟨0, source⟩

namespace Reader

variable {source : List Char} {systemId : Option String} {n k : Nat} {t : Token}

/-- The token ahead of a reader is read from the document. -/
theorem readFrom_of_next? {l : Lexer} (h : ((start source systemId).afterCalls k).lexer.next? = .ok (some (t, l))) :
    t.ReadFrom (.ofSource source) := by
  obtain ⟨used, hused, ht⟩ := Lexer.readFrom_of_next? h
  have hreaches := (reaches_afterCalls source systemId k).1
  obtain ⟨skipped, hskipped, -⟩ := hreaches.split
  rw [hreaches.offset_eq hskipped] at ht
  refine ht.mono ⟨skipped, l.cursor.rest, ?_, rfl⟩
  rw [List.append_assoc, ← hused]
  exact hskipped

theorem readFrom_of_tokenOfCall (h : (start source systemId).tokenOfCall k = some t) :
    t.ReadFrom (.ofSource source) := by
  obtain ⟨t', lexer, opened, entities, events, ht, hl, -⟩ := exists_of_call_token (call_of_tokenOfCall h)
  obtain rfl := Option.some.inj (h.symm.trans ht)
  exact readFrom_of_next? hl

/-- Whatever the first calls have read is read from the document. -/
theorem readFrom_of_mem_tokensOfCalls (h : t ∈ (start source systemId).tokensOfCalls n) :
    t.ReadFrom (.ofSource source) := by
  induction n with
  | zero => simp [tokensOfCalls] at h
  | succ n ih =>
    rw [tokensOfCalls, List.mem_append] at h
    rcases h with h | h
    · exact ih h
    · exact readFrom_of_tokenOfCall (Option.mem_toList.1 h)

end Reader

end Xml

end MapMarkup
