import MapMarkup.Proofs.Lookahead

/-!
# Tokens of texts that go on differently

Every construct is scanned alike in two texts that go on differently behind it, and so the lexer gives tokens that read
alike, or comes to the end of both texts (`Lexer.matches_next?`).
-/

namespace MapMarkup.Xml

/-- The tokens read the same; they may stand in different places. -/
inductive Token.Alike : Token → Token → Prop
  | aside : Alike .aside .aside
  | externalEntity {m n : Passage} (hname : m.Alike n) : Alike (.entity m none) (.entity n none)
  | entity {m n p q : Passage} (hname : m.Alike n) (hvalue : p.Alike q) :
    Alike (.entity m (some p)) (.entity n (some q))
  | elementStart {m n : QName} (hname : m.Alike n) (s t : Span) : Alike (.elementStart m s) (.elementStart n t)
  | attr {m n : QName} {p q : Passage} (hname : m.Alike n) (hvalue : p.Alike q) :
    Alike (.attribute m p) (.attribute n q)
  | openEnd : Alike .openEnd .openEnd
  | emptyEnd : Alike .emptyEnd .emptyEnd
  | closeTag {m n : QName} (hname : m.Alike n) (s t : Span) : Alike (.closeTag m s) (.closeTag n t)
  | text {p q : Passage} (h : p.Alike q) : Alike (.text p) (.text q)
  | cdata {p q : Passage} (h : p.Alike q) : Alike (.cdata p) (.cdata q)

namespace Production

open Scan (Matches Same matches_ahead matches_ahead_of_tail matches_position)
open Lexeme

variable {U V : List Char} (h : SameStart U V)

include h

/-! ### Constructs -/

private theorem same_declarationSpace : Same U V declarationSpace := by
  refine matches_ahead h (.pure rfl) fun d _ _ => ?_
  dsimp only
  split
  · exact same_spaces h
  · refine (same_sees h (by decide)).bind fun seen => ?_
    split
    · exact .pure rfl
    · exact matches_position.bind fun _ _ _ => .fail _

private theorem same_declarationVersion : Same U V declarationVersion :=
  (same_text h (by decide)).bind fun _ => (same_equals h).bind fun _ => (same_quote h).bind fun mark =>
    (same_text h (by decide)).bind fun _ => (same_takeWhile h _).bind fun _ => same_char h mark

private theorem same_declarationEncoding : Same U V declarationEncoding := by
  refine (same_sees h (by decide)).bind fun seen => ?_
  split
  · exact (same_text h (by decide)).bind fun _ => (same_equals h).bind fun _ => (same_quote h).bind fun mark =>
      (same_takeWhile h _).bind fun _ => (same_char h mark).bind fun _ => same_declarationSpace h
  · exact .pure rfl

private theorem same_declarationStandalone : Same U V declarationStandalone := by
  refine (same_sees h (by decide)).bind fun seen => ?_
  split
  · refine (same_text h (by decide)).bind fun _ => (same_equals h).bind fun _ => (same_quote h).bind fun mark =>
      matches_position.bind fun _ _ _ => (matches_name h).bind ?_
    rintro ⟨o, cs⟩ ⟨o', _⟩ rfl
    dsimp only
    split
    · exact same_char h mark
    · exact .fail _
  · exact .pure rfl

private theorem matches_declaration : Matches U V Token.Alike declaration declaration :=
  (same_text h (by decide)).bind fun _ => (same_spaces h).bind fun _ => (same_declarationVersion h).bind fun _ =>
    (same_declarationSpace h).bind fun _ => (same_declarationEncoding h).bind fun _ =>
      (same_declarationStandalone h).bind fun _ => (same_spaces h).bind fun _ =>
        (same_text h (by decide)).bind fun _ => .pure .aside

private theorem matches_comment : Matches U V Token.Alike comment comment := by
  refine (same_text h (by decide)).bind fun _ => (matches_charsUntilText h (by decide)).bind ?_
  rintro ⟨o, cs⟩ ⟨o', _⟩ rfl
  refine (same_text h (by decide)).bind fun _ => ?_
  dsimp only
  split
  · exact .fail _
  · split
    · exact .fail _
    · exact .pure .aside

private theorem matches_instruction : Matches U V Token.Alike instruction instruction :=
  (same_text h (by decide)).bind fun _ => (matches_name h).bind fun _ _ _ => (same_spaces h).bind fun _ =>
    (matches_charsUntilText h (by decide)).bind fun _ _ _ => (same_text h (by decide)).bind fun _ => .pure .aside

private theorem matches_cdataSection : Matches U V Token.Alike cdataSection cdataSection :=
  (same_text h (by decide)).bind fun _ => (matches_charsUntilText h (by decide)).bind fun _ _ hp =>
    (same_text h (by decide)).bind fun _ => .pure (.cdata hp)

private theorem same_externalId : Same U V externalId := by
  refine (same_sees h (by decide)).bind fun seen => ?_
  split
  · exact (same_text h (by decide)).bind fun _ => (same_someSpace h).bind fun _ =>
      (matches_quotedText h).bind fun _ _ _ => .pure rfl
  · refine (same_sees h (by decide)).bind fun seen => ?_
    split
    · exact (same_text h (by decide)).bind fun _ => (same_someSpace h).bind fun _ =>
        (matches_quotedText h).bind fun _ _ _ => (same_someSpace h).bind fun _ =>
          (matches_quotedText h).bind fun _ _ _ => .pure rfl
    · exact .pure rfl

private theorem same_doctype : Same U V doctype :=
  (same_text h (by decide)).bind fun _ => (same_someSpace h).bind fun _ => (matches_name h).bind fun _ _ _ =>
    (same_spaces h).bind fun _ => (same_externalId h).bind fun _ => (same_spaces h).bind fun _ =>
      (same_charOf h _).bind fun _ => .pure rfl

private theorem matches_doctypeEnd : Matches U V Token.Alike doctypeEnd doctypeEnd :=
  (same_text h (by decide)).bind fun _ => (same_spaces h).bind fun _ => (same_char h '>').bind fun _ => .pure .aside

private theorem same_notationName : Same U V notationName := by
  refine (same_sees h (by decide)).bind fun seen => ?_
  split
  · exact (same_text h (by decide)).bind fun _ => (same_someSpace h).bind fun _ =>
      matches_ahead h (.pure rfl) fun _ _ _ => (matches_name h).bind fun _ _ _ => .pure rfl
  · exact .pure rfl

/-- The values of an entity are both missing, or they read the same. -/
inductive SameValue : Option Passage → Option Passage → Prop
  | none : SameValue none none
  | some {p q : Passage} (h : p.Alike q) : SameValue (some p) (some q)

private theorem matches_entityValue (general : Bool) :
    Matches U V SameValue (entityValue general) (entityValue general) := by
  refine matches_ahead h (.fail _) fun d _ _ => ?_
  dsimp only
  split
  · exact (matches_quotedText h).bind fun _ _ hp => .pure (.some hp)
  · split
    · refine (same_externalId h).bind fun found => ?_
      split
      · split
        · exact (same_spaces h).bind fun _ => (same_notationName h).bind fun _ => .pure .none
        · exact .pure .none
      · exact .fail _
    · exact matches_position.bind fun _ _ _ => .fail _

private theorem matches_entityDeclaration : Matches U V Token.Alike entityDeclaration entityDeclaration := by
  have hrest : ∀ general, Matches U V Token.Alike
      (do let n ← name; someSpace; let value ← entityValue general; spaces; char '>'; return Token.entity n value)
      (do let n ← name; someSpace; let value ← entityValue general; spaces; char '>'; return Token.entity n value) := by
    intro general
    refine (matches_name h).bind fun m n hname => (same_someSpace h).bind fun _ =>
      (matches_entityValue h general).bind fun _ _ hvalue => (same_spaces h).bind fun _ =>
        (same_char h '>').bind fun _ => .pure ?_
    cases hvalue with
    | none => exact .externalEntity hname
    | some hp => exact .entity hname hp
  refine (same_text h (by decide)).bind fun _ => (same_someSpace h).bind fun _ =>
    (same_sees h (by decide)).bind fun parameter => ?_
  cases parameter with
  | true => exact (same_char h '%').bind fun _ => (same_someSpace h).bind fun _ => hrest false
  | false => exact hrest true

private theorem matches_elementStart : Matches U V Token.Alike elementStart elementStart :=
  matches_position.bind fun _ _ _ => (same_char h '<').bind fun _ => (matches_qname h).bind fun _ _ hname =>
    matches_position.bind fun _ _ _ => .pure (.elementStart hname _ _)

private theorem matches_closeTag : Matches U V Token.Alike closeTag closeTag :=
  matches_position.bind fun _ _ _ => (same_text h (by decide)).bind fun _ => (matches_qname h).bind fun _ _ hname =>
    (same_spaces h).bind fun _ => (same_char h '>').bind fun _ => matches_position.bind fun _ _ _ =>
      .pure (.closeTag hname _ _)

private theorem matches_attributeSpec : Matches U V Token.Alike attributeSpec attributeSpec := by
  refine (matches_qname h).bind fun _ _ hname => (same_equals h).bind fun _ => (same_quote h).bind fun mark => ?_
  have hstop : Blind U V fun cs => cs.head? = some mark || cs.head? = some '<' :=
    fun ahead => congrArg (fun d? => decide (d? = some mark) || decide (d? = some '<')) (h.blind_head? ahead)
  exact (matches_charsUntil h hstop).bind fun _ _ hvalue => (same_char h mark).bind fun _ =>
    .pure (.attr hname hvalue)

/-- The part of a start tag behind white space. -/
def tagPart (gap : List Char) : List Char → Lexeme Token
  | [] => if gap = [] then Scan.fail .endOfText else attributeSpec
  | '/' :: _ => do
    Lexeme.char '/'
    Lexeme.char '>'
    return .emptyEnd
  | '>' :: _ => do
    Lexeme.char '>'
    return .openEnd
  | c :: _ => do if gap = [] then Scan.fail (.expectedSpace (leadByte c) (← Scan.position)) else attributeSpec

omit h in
theorem inTag_eq : inTag = (do tagPart (← Scan.takeWhile isSpace) (← Scan.ahead)) := rfl

omit h in
/-- It only matters with which character the part starts. -/
theorem tagPart_cons (gap : List Char) (d : Char) (cs ds : List Char) :
    tagPart gap (d :: cs) = tagPart gap (d :: ds) := by
  unfold tagPart
  split <;> split <;> grind

private theorem matches_inTag : Matches U V Token.Alike inTag inTag := by
  rw [inTag_eq]
  refine (same_takeWhile h isSpace).bind fun gap => matches_ahead_of_tail h (tagPart_cons gap) fun cs => ?_
  unfold tagPart
  split
  · split
    · exact .fail _
    · exact matches_attributeSpec h
  · exact (same_char h '/').bind fun _ => (same_char h '>').bind fun _ => .pure .emptyEnd
  · exact (same_char h '>').bind fun _ => .pure .openEnd
  · split
    · exact matches_position.bind fun _ _ _ => .fail _
    · exact matches_attributeSpec h

private theorem matches_textRun : Matches U V Token.Alike textRun textRun := by
  refine (matches_charsUntilText h (by decide)).bind ?_
  rintro ⟨o, cs⟩ ⟨o', _⟩ rfl
  dsimp only
  split
  · exact .fail _
  · exact .pure (.text rfl)

end Production

/-! ### Phases -/

/-- The texts ahead are the same up to `U` and `V`. -/
def Cursor.Diverge (U V : List Char) (c c' : Cursor) : Prop :=
  ∃ a, c.rest = a ++ U ∧ c'.rest = a ++ V

namespace Lexer

/-- If the first lexer gives a token and stops in front of `U`, the second one gives a token that reads the same, stops
in front of `V` and is in the same phase; and if the first one has come to the end of the text, so has the second. -/
structure Matches (U V : List Char) (lexed lexed' : Lexed) : Prop where
  token : ∀ t l a, lexed = .ok (some (t, l)) → l.cursor.rest = a ++ U →
    ∃ t' l', lexed' = .ok (some (t', l')) ∧ t.Alike t' ∧ l'.phase = l.phase ∧ l'.cursor.rest = a ++ V
  atEnd : U = [] → lexed = .ok none → lexed' = .ok none

variable {U V : List Char}

theorem Matches.error {lexed' : Lexed} (e : Malformed) : Matches U V (.error e) lexed' :=
  ⟨by simp, by simp⟩

private theorem matches_none : Matches U V (.ok none) (.ok none) :=
  ⟨by simp, fun _ _ => rfl⟩

variable {c c' : Cursor}

private theorem matches_construct {α : Type} {R : α → α → Prop} {kind : Construct} {s : Lexeme α}
    {token : α → Token × Phase}
    (hc : Cursor.Diverge U V c c') (hs : Scan.Matches U V R s s)
    (htoken : ∀ x y, R x y → (token x).1.Alike (token y).1 ∧ (token y).2 = (token x).2) :
    Matches U V (construct kind s token c) (construct kind s token c') := by
  obtain ⟨a, hc, hc'⟩ := hc
  constructor
  · intro t l a' hl hrest
    obtain ⟨r, hr, rfl, rfl⟩ := construct_eq_ok hl
    obtain ⟨r', hr', hR, hrest'⟩ := hs c c' a a' r hc hc' hr hrest
    obtain ⟨halike, hphase⟩ := htoken _ _ hR
    exact ⟨_, _, by rw [construct, hr'], halike, hphase, hrest'⟩
  · intro _ hl
    unfold construct at hl
    split at hl <;> simp at hl

private theorem matches_within (hc : Cursor.Diverge U V c c') {phase : Phase} {kind : Construct} {s : Lexeme Token}
    (hs : Scan.Matches U V Token.Alike s s) : Matches U V (within phase kind s c) (within phase kind s c') :=
  matches_construct hc hs fun _ _ hR => ⟨hR, rfl⟩

variable (h : SameStart U V) (hc : Cursor.Diverge U V c c')

include h hc

private theorem sees_eq {s : String} (hs : Unquoted s.toList) : sees c' s = sees c s := by
  obtain ⟨a, hc, hc'⟩ := hc
  rw [sees, sees, hc, hc']
  exact (h.blind_isPrefixOf hs a).symm

private theorem rest_eq_nil_iff : c'.rest = [] ↔ c.rest = [] := by
  obtain ⟨a, hc, hc'⟩ := hc
  rw [hc, hc']
  cases h <;> simp

private theorem rest_eq_singleton_iff : c'.rest = ['<'] ↔ c.rest = ['<'] := by
  obtain ⟨a, hc, hc'⟩ := hc
  rw [hc, hc']
  cases h with
  | nil => rfl
  | quote hmark cs ds =>
    rcases a with _ | ⟨d, a⟩
    · rcases hmark with rfl | rfl <;> simp
    · simp

private theorem diverge_skipSpaces : Cursor.Diverge U V (skipSpaces c) (skipSpaces c') := by
  obtain ⟨a, hc, hc'⟩ := hc
  have hskip : ∀ (d : Cursor) (W : List Char), d.rest = a ++ W → W.dropWhile isSpace = W →
      (skipSpaces d).rest = a.dropWhile isSpace ++ W := by
    intro d W hd hW
    rw [skipSpaces, Cursor.rest_advance, drop_length_takeWhile, hd, List.dropWhile_append, hW]
    split
    · rename_i hempty
      rw [List.isEmpty_iff.1 hempty, List.nil_append]
    · rfl
  have hmark : U.dropWhile isSpace = U ∧ V.dropWhile isSpace = V := by
    cases h with
    | nil => exact ⟨rfl, rfl⟩
    | quote hmark cs ds => rcases hmark with rfl | rfl <;> exact ⟨rfl, rfl⟩
  exact ⟨_, hskip c U hc hmark.1, hskip c' V hc' hmark.2⟩

/-- What comes unless the text is at its end. -/
private theorem matches_unlessAtEnd {lexed lexed' : Lexed} (hlexed : Matches U V lexed lexed') :
    Matches U V (if c.rest = [] then .ok none else lexed) (if c'.rest = [] then .ok none else lexed') := by
  simp only [rest_eq_nil_iff h hc]
  split
  · exact matches_none
  · exact hlexed

/-- What comes unless there is a comment or a processing instruction. -/
private theorem matches_unlessAside (phase : Phase) {lexed lexed' : Lexed} (hlexed : Matches U V lexed lexed') :
    Matches U V (match aside? phase c with | some aside => aside | none => lexed)
      (match aside? phase c' with | some aside => aside | none => lexed') := by
  unfold aside?
  rw [sees_eq h hc (s := "<!--") (by decide), sees_eq h hc (s := "<?xml ") (by decide),
    sees_eq h hc (s := "<?") (by decide)]
  by_cases hcomment : sees c "<!--" = true
  · simp only [hcomment, ↓reduceIte]
    exact matches_within hc (Production.matches_comment h)
  by_cases hdeclaration : sees c "<?xml " = true
  · simp only [hcomment, hdeclaration, Bool.false_eq_true, ↓reduceIte]
    exact .error _
  by_cases hinstruction : sees c "<?" = true
  · simp only [hcomment, hdeclaration, hinstruction, Bool.false_eq_true, ↓reduceIte]
    exact matches_within hc (Production.matches_instruction h)
  · simp only [hcomment, hdeclaration, hinstruction, Bool.false_eq_true, ↓reduceIte]
    exact hlexed

private theorem matches_beforeRoot : Matches U V (beforeRoot c) (beforeRoot c') := by
  have hd := diverge_skipSpaces h hc
  refine matches_unlessAtEnd h hd (matches_unlessAside h hd .beforeRoot ?_)
  rw [sees_eq h hd (s := "<") (by decide), sees_eq h hd (s := "<!") (by decide)]
  split
  · exact matches_construct hd (Production.matches_elementStart h) fun _ _ hR => ⟨hR, rfl⟩
  · exact .error _

private theorem matches_beforeDoctype : Matches U V (beforeDoctype c) (beforeDoctype c') := by
  have hd := diverge_skipSpaces h hc
  unfold beforeDoctype
  dsimp only
  rw [sees_eq h hd (s := "<!DOCTYPE") (by decide)]
  split
  · exact matches_construct hd (Production.same_doctype h) fun _ _ hR => ⟨.aside, hR ▸ rfl⟩
  · exact matches_unlessAside h hd .beforeDoctype (matches_beforeRoot h hd)

private theorem matches_opening : Matches U V (opening c) (opening c') := by
  unfold opening
  rw [sees_eq h hc (s := "<?xml ") (by decide)]
  split
  · exact matches_construct hc (Production.matches_declaration h) fun _ _ hR => ⟨hR, rfl⟩
  · exact matches_beforeDoctype h hc

/-- Whether a declaration of the DTD is ahead that gives no token. -/
def seesDeclaration (c : Cursor) : Bool :=
  sees c "<!ELEMENT" || sees c "<!ATTLIST" || sees c "<!NOTATION"

private theorem seesDeclaration_eq : seesDeclaration c' = seesDeclaration c := by
  rw [seesDeclaration, sees_eq h hc (s := "<!ELEMENT") (by decide), sees_eq h hc (s := "<!ATTLIST") (by decide),
    sees_eq h hc (s := "<!NOTATION") (by decide)]
  rfl

omit h hc in
private theorem skipDeclarations_of_seen {run rest : List Char} (hsees : seesDeclaration (skipSpaces c) = true)
    (hrun : '>' ∉ run) (hrest : (skipSpaces c).rest = run ++ '>' :: rest) :
    skipDeclarations c = skipDeclarations ((skipSpaces c).advance (run.length + 1)) := by
  have htake : (skipSpaces c).rest.takeWhile (· ≠ '>') = run := hrest ▸ takeWhile_append_cons hrun rest
  have hdrop : (skipSpaces c).rest.dropWhile (· ≠ '>') = '>' :: rest := hrest ▸ dropWhile_append_cons hrun rest
  unfold seesDeclaration at hsees
  rw [skipDeclarations, if_pos hsees, htake]
  split
  · simp_all
  · rfl

omit h hc in
private theorem skipDeclarations_of_not_seen (hsees : ¬ seesDeclaration (skipSpaces c) = true) :
    skipDeclarations c = .ok (skipSpaces c) := by
  unfold skipDeclarations
  exact if_neg hsees

private theorem exists_skipDeclarations {d : Cursor} (hd : skipDeclarations c = .ok d) {a : List Char}
    (ha : d.rest = a ++ U) : ∃ d', skipDeclarations c' = .ok d' ∧ d'.rest = a ++ V := by
  fun_induction skipDeclarations c generalizing c' with
  | case1 => simp at hd
  | case2 c e hsees x others hdrop =>
    rename_i ih
    have hdiverge := diverge_skipSpaces h hc
    have hsees' : seesDeclaration (skipSpaces c') = true := (seesDeclaration_eq h hdiverge).trans hsees
    obtain ⟨between, he, he'⟩ := hdiverge
    by_cases hmem : '>' ∈ e.rest
    · obtain ⟨run, rest, hsplit, hrun⟩ := List.eq_append_cons_of_mem hmem
      have htakeWhile : e.rest.takeWhile (· ≠ '>') = run := hsplit ▸ takeWhile_append_cons hrun rest
      rw [htakeWhile] at hd ih
      -- The declaration ends in front of `U`, so the other text has all of it.
      obtain ⟨used, hused, -⟩ := (reaches_of_skipDeclarations hd).split
      have hleft : (between ++ U).drop (run.length + 1) = (used ++ a) ++ U := by
        rw [← he, List.append_assoc, ← ha]
        exact hused
      obtain ⟨htake, hleft'⟩ := h.take_drop hleft
      have hsplit' : (skipSpaces c').rest = run ++ '>' :: (used ++ a ++ V) := by
        have hpart : (between ++ U).take (run.length + 1) = run ++ ['>'] := by
          rw [← he]
          show e.rest.take (run.length + 1) = _
          rw [hsplit, List.take_length_add_append]
          rfl
        calc (skipSpaces c').rest
          _ = (between ++ V).take (run.length + 1) ++ (between ++ V).drop (run.length + 1) := by
            rw [he', List.take_append_drop]
          _ = run ++ '>' :: (used ++ a ++ V) := by
            rw [htake, hpart, hleft', List.append_assoc, List.singleton_append]
      obtain ⟨d', hd', hrest'⟩ := ih ⟨used ++ a, by rw [Cursor.rest_advance, ← hleft, ← he], by
        rw [Cursor.rest_advance, he', hleft']⟩ hd
      exact ⟨d', (skipDeclarations_of_seen hsees' hrun hsplit').trans hd', hrest'⟩
    · rw [dropWhile_of_not_mem hmem] at hdrop
      simp at hdrop
  | case3 c e =>
    rename_i hsees
    obtain rfl := Except.ok.inj hd
    have hdiverge := diverge_skipSpaces h hc
    refine ⟨skipSpaces c', skipDeclarations_of_not_seen ?_, ?_⟩
    · rw [seesDeclaration_eq h hdiverge]
      exact hsees
    · obtain ⟨between, he, he'⟩ := hdiverge
      rw [he', List.append_cancel_right (he.symm.trans ha)]

private theorem matches_inDoctypeAt : Matches U V (inDoctypeAt c) (inDoctypeAt c') := by
  refine matches_unlessAtEnd h hc ?_
  rw [sees_eq h hc (s := "<!ENTITY") (by decide), sees_eq h hc (s := "]") (by decide)]
  split
  · exact matches_within hc (Production.matches_entityDeclaration h)
  · split
    · exact matches_construct hc (Production.matches_doctypeEnd h) fun _ _ hR => ⟨hR, rfl⟩
    · exact matches_unlessAside h hc .inDoctype (.error _)

private theorem matches_inDoctype : Matches U V (inDoctype c) (inDoctype c') := by
  unfold inDoctype
  cases hd : skipDeclarations c with
  | error e => exact .error e
  | ok d =>
    constructor
    · intro t l a hl hrest
      -- The declarations in front of the token end in front of `U` too.
      obtain ⟨used, hused, -⟩ := (continues_inDoctypeAt d t l hl).1.split
      have hbetween : d.rest = (used ++ a) ++ U := by rw [hused, hrest, List.append_assoc]
      obtain ⟨d', hd', hbetween'⟩ := exists_skipDeclarations h hc hd hbetween
      rw [hd']
      exact (matches_inDoctypeAt h ⟨_, hbetween, hbetween'⟩).token t l a hl hrest
    · rintro rfl hl
      obtain ⟨d', hd', hbetween'⟩ := exists_skipDeclarations h hc hd (List.append_nil d.rest).symm
      rw [hd']
      exact (matches_inDoctypeAt h ⟨_, (List.append_nil d.rest).symm, hbetween'⟩).atEnd rfl hl

private theorem matches_content (depth : Nat) : Matches U V (content depth c) (content depth c') := by
  refine matches_unlessAtEnd h hc ?_
  rw [sees_eq h hc (s := "<") (by decide)]
  split
  · refine matches_unlessAside h hc (.content depth) ?_
    rw [sees_eq h hc (s := "<![CDATA[") (by decide), sees_eq h hc (s := "<!") (by decide),
      sees_eq h hc (s := "</") (by decide)]
    split
    · exact matches_within hc (Production.matches_cdataSection h)
    · simp only [rest_eq_singleton_iff h hc]
      split
      · exact .error _
      · split
        · exact matches_construct hc (Production.matches_closeTag h) fun _ _ hR => ⟨hR, rfl⟩
        · exact matches_construct hc (Production.matches_elementStart h) fun _ _ hR => ⟨hR, rfl⟩
  · exact matches_within hc (Production.matches_textRun h)

private theorem matches_inTag (depth : Nat) : Matches U V (inTag depth c) (inTag depth c') := by
  refine matches_unlessAtEnd h hc (matches_construct hc (Production.matches_inTag h) ?_)
  intro x y hR
  refine ⟨hR, ?_⟩
  cases hR <;> rfl

private theorem matches_afterRoot : Matches U V (afterRoot c) (afterRoot c') := by
  have hd := diverge_skipSpaces h hc
  exact matches_unlessAtEnd h hd (matches_unlessAside h hd .afterRoot (.error _))

omit hc in
/-- In the same phase, lexers give tokens that read the same as long as the texts ahead do. -/
theorem matches_next? {l l' : Lexer} (hphase : l'.phase = l.phase) (hcursor : Cursor.Diverge U V l.cursor l'.cursor) :
    Matches U V l.next? l'.next? := by
  unfold next?
  rw [hphase]
  cases l.phase with
  | opening => exact matches_opening h hcursor
  | beforeDoctype => exact matches_beforeDoctype h hcursor
  | inDoctype => exact matches_inDoctype h hcursor
  | beforeRoot => exact matches_beforeRoot h hcursor
  | content depth => exact matches_content h hcursor depth
  | inTag depth => exact matches_inTag h hcursor depth
  | afterRoot => exact matches_afterRoot h hcursor

end Lexer

end MapMarkup.Xml
