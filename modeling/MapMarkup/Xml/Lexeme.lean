import MapMarkup.Source.Scan
import MapMarkup.Xml.Char
import MapMarkup.Xml.Malformed

/-!
# The smallest parts of markup

Scans for the parts from which every construct is put together: a given character or text, white space, an equals
sign, quotation marks, names, qualified names, and runs of characters up to a delimiter. A passage is a piece of a
document that knows where it stands.
-/

namespace MapMarkup.Xml

/-- A piece of a document with the offset of its first byte. -/
structure Passage where
  offset : Nat
  chars : List Char
deriving DecidableEq, Repr

/-- The bytes that a passage covers. -/
def Passage.span (p : Passage) : Span := ⟨p.offset, p.offset + utf8Size p.chars⟩

/-- A name with the qualifier in front of its colon; the qualifier is empty when there is none. -/
structure QName where
  qualifier : Passage
  base : Passage
deriving DecidableEq, Repr

/-- Whether two qualified names are spelled alike. -/
def QName.sameAs (m n : QName) : Bool :=
  m.qualifier.chars = n.qualifier.chars && m.base.chars = n.base.chars

theorem QName.sameAs_iff {m n : QName} :
    m.sameAs n ↔ m.qualifier.chars = n.qualifier.chars ∧ m.base.chars = n.base.chars := by
  simp [sameAs]

/-- Scans that fail with the cause of a broken construct. -/
abbrev Lexeme (α : Type) : Type := Scan Cause α

namespace Lexeme

open Scan (ahead fail position take takeWhile)

/-- The passage that a scan moves over. -/
def passage (s : Lexeme (List Char)) : Lexeme Passage := do
  let p ← position
  let cs ← s
  return ⟨p.offset, cs⟩

/-- One of the given characters. -/
def charOf (wanted : List Char) : Lexeme Char := do
  match ← ahead with
  | [] => fail .endOfText
  | c :: _ =>
    if wanted.contains c then
      let _ ← take 1
      return c
    else fail (.expectedChar wanted (leadByte c) (← position))

/-- The given character. -/
def char (c : Char) : Lexeme Unit := do
  let _ ← charOf [c]

/-- Whether the text ahead starts with `s`. -/
def sees (s : String) : Lexeme Bool := do
  return s.toList.isPrefixOf (← ahead)

/-- The given text. -/
def text (s : String) : Lexeme Unit := do
  if ← sees s then
    let _ ← take s.toList.length
  else fail (.expectedText [s] (← position))

/-- White space, if there is any. -/
def spaces : Lexeme Unit := do
  let _ ← takeWhile isSpace

/-- At least one character of white space. -/
def someSpace : Lexeme Unit := do
  match ← ahead with
  | [] => fail .endOfText
  | c :: _ => if isSpace c then spaces else fail (.expectedSpace (leadByte c) (← position))

/-- An equals sign with white space around it. -/
def equals : Lexeme Unit := do
  spaces
  char '='
  spaces

/-- A quotation mark of either kind. -/
def quote : Lexeme Char := do
  match ← ahead with
  | [] => fail .endOfText
  | c :: _ =>
    if c = '"' || c = '\'' then
      let _ ← take 1
      return c
    else fail (.expectedQuote (leadByte c) (← position))

/-- Text between quotation marks, in which any other character may stand. -/
def quotedText : Lexeme Passage := do
  let mark ← quote
  let p ← passage (takeWhile (· ≠ mark))
  char mark
  return p

/-- A name. -/
def name : Lexeme Passage := do
  match ← ahead with
  | [] => fail .invalidName
  | c :: _ => if isNameStart c then passage (takeWhile isNameChar) else fail .invalidName

/-- Whether a text starts as a name does. -/
def startsName (cs : List Char) : Bool :=
  cs.head?.any isNameStart

/-- A qualified name. The run of name characters ahead has at most one colon, which ends the qualifier; what stands
before the colon, if anything does, and what stands after it start as names do. -/
def qname : Lexeme QName := do
  let run ← passage (takeWhile isNameChar)
  let head := run.chars.takeWhile (· ≠ ':')
  match run.chars.dropWhile (· ≠ ':') with
  | [] =>
    if startsName head then return ⟨⟨run.offset, []⟩, run⟩ else fail .invalidName
  | _ :: base =>
    if (head = [] || startsName head) && startsName base && !base.contains ':' then
      return ⟨⟨run.offset, head⟩, ⟨run.offset + utf8Size head + 1, base⟩⟩
    else fail .invalidName

/-- The characters before the first place from which the text satisfies `stop`. -/
def before (stop : List Char → Bool) : List Char → List Char
  | [] => []
  | c :: cs => if stop (c :: cs) then [] else c :: before stop cs

/-- The characters up to the first place from which the text satisfies `stop`, or up to the end of the text, all of
which may stand in a document. -/
def charsUntil (stop : List Char → Bool) : Lexeme Passage := do
  let p ← position
  let run := before stop (← ahead)
  match run.dropWhile isXmlChar with
  | c :: _ => fail (.unusableChar c (p.after (run.takeWhile isXmlChar)))
  | [] => passage (take run.length)

/-- The characters up to the first occurrence of a text, or up to the end of the document. -/
def charsUntilText (s : String) : Lexeme Passage :=
  charsUntil s.toList.isPrefixOf

/-! ### Scans that move on -/

open Scan (Advances)

private theorem length_drop_lt {n : Nat} {cs : List Char} (hn : 0 < n) (hcs : cs ≠ []) :
    (cs.drop n).length < cs.length := by
  have := List.length_pos_iff.2 hcs
  simp only [List.length_drop]
  omega

private theorem advances_charOf (wanted : List Char) : Advances (charOf wanted) := by
  intro c r h
  simp only [charOf, ahead, Bind.bind] at h
  rcases hc : c.rest with _ | ⟨d, ds⟩
  · simp [hc, fail] at h
  · by_cases hd : wanted.contains d
    · simp only [hc, hd, take, ↓reduceIte, pure, Except.ok.injEq] at h
      subst h
      simp [hc]
    · simp only [hc, hd, fail, position, Bool.false_eq_true, ↓reduceIte, reduceCtorEq] at h

theorem advances_char (c : Char) : Advances (char c) :=
  (advances_charOf [c]).bind _

theorem advances_quote : Advances quote := by
  intro c r h
  simp only [quote, ahead, Bind.bind] at h
  rcases hc : c.rest with _ | ⟨d, ds⟩
  · simp [hc, fail] at h
  · by_cases hd : (d = '"' || d = '\'') = true
    · simp only [hc, hd, take, ↓reduceIte, pure, Except.ok.injEq] at h
      subst h
      simp [hc]
    · simp [hc, hd, fail, position] at h

theorem advances_text {s : String} (hs : s.toList ≠ []) : Advances (text s) := by
  intro c r h
  by_cases hp : s.toList.isPrefixOf c.rest
  · simp only [text, sees, ahead, Bind.bind, pure, hp, take, ↓reduceIte, Except.ok.injEq] at h
    subst h
    have hc : c.rest ≠ [] := by
      intro h0
      rw [h0] at hp
      rcases hl : s.toList with _ | ⟨d, ds⟩
      · exact hs hl
      · simp [hl] at hp
    exact length_drop_lt (List.length_pos_iff.2 hs) hc
  · simp [text, sees, ahead, Bind.bind, pure, hp, fail, position] at h

/-- A run of characters that does not stop at once takes at least one of them. -/
theorem length_of_charsUntil {stop : List Char → Bool} {c : Cursor} {r : Scanned c Passage} (hc : c.rest ≠ [])
    (hs : stop c.rest = false) (h : charsUntil stop c = .ok r) : r.next.rest.length < c.rest.length := by
  obtain ⟨d, ds, hd⟩ := List.exists_cons_of_ne_nil hc
  have hb : before stop c.rest = d :: before stop ds := by
    rw [hd] at hs
    simp only [hd, before, hs, Bool.false_eq_true, ↓reduceIte]
  obtain ⟨r₁, h₁, r₂, h₂, -, hr⟩ := Scan.bind_eq_ok h
  obtain rfl := Except.ok.inj h₁
  obtain ⟨r₃, h₃, r₄, h₄, -, hr'⟩ := Scan.bind_eq_ok h₂
  obtain rfl := Except.ok.inj h₃
  rw [hr, hr']
  rcases hrun : (before stop c.rest).dropWhile isXmlChar with _ | ⟨e, es⟩
  · simp only [hrun] at h₄
    obtain rfl := Except.ok.inj h₄
    exact length_drop_lt (by simp [hb]) hc
  · simp [hrun, fail] at h₄

end Lexeme

end MapMarkup.Xml
