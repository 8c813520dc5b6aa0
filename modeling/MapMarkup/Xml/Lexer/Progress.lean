import MapMarkup.Xml.Lexer

/-!
# Every token takes some of the text

Whatever the phase, the lexer goes from one token to the next by moving its cursor over at least one character.
The main statements are `Lexer.reaches_of_next?`, which says that positions stay true to the text, and
`Lexer.length_of_next?`: every token takes at least one character, so a document has no more tokens than characters.
-/

namespace MapMarkup.Xml

namespace Lexer

/-- Whatever token this gives, it is behind the cursor by at least one character. -/
def Continues (c : Cursor) (lexed : Lexed) : Prop :=
  ∀ t l, lexed = .ok (some (t, l)) → c.Reaches l.cursor ∧ l.cursor.rest.length < c.rest.length

theorem Continues.error {c : Cursor} (e : Malformed) : Continues c (.error e) := by
  intro t l h; simp at h

theorem Continues.none {c : Cursor} : Continues c (.ok none) := by
  intro t l h; simp at h

private theorem Continues.of_reaches {c d : Cursor} {lexed : Lexed} (h : Continues d lexed) (hd : c.Reaches d) :
    Continues c lexed :=
  fun t l e => ⟨hd.trans (h t l e).1, Nat.lt_of_lt_of_le (h t l e).2 hd.length_le⟩

/-- A construct that gives a token has been scanned. -/
theorem construct_eq_ok {α : Type} {kind : Construct} {s : Lexeme α} {token : α → Token × Phase} {c : Cursor}
    {t : Token} {l : Lexer} (h : construct kind s token c = .ok (some (t, l))) :
    ∃ r, s c = .ok r ∧ t = (token r.value).1 ∧ l = ⟨(token r.value).2, r.next⟩ := by
  unfold construct at h
  split at h
  · simp at h
  · rename_i r hr
    simp only [Except.ok.injEq, Option.some.injEq, Prod.mk.injEq] at h
    exact ⟨r, hr, h.1.symm, h.2.symm⟩

private theorem continues_construct {α : Type} {kind : Construct} {s : Lexeme α} {token : α → Token × Phase}
    {c : Cursor}
    (hs : ∀ r, s c = .ok r → r.next.rest.length < c.rest.length) : Continues c (construct kind s token c) := by
  intro t l h
  obtain ⟨r, hr, -, rfl⟩ := construct_eq_ok h
  exact ⟨r.reaches, hs r hr⟩

private theorem continues_of_advances {α : Type} {kind : Construct} {s : Lexeme α} {token : α → Token × Phase}
    (c : Cursor)
    (hs : Scan.Advances s) : Continues c (construct kind s token c) :=
  continues_construct fun r => hs c r

theorem reaches_skipSpaces (c : Cursor) : c.Reaches (skipSpaces c) := ⟨_, rfl⟩

private theorem continues_aside? {phase : Phase} {c : Cursor} {lexed : Lexed} (h : aside? phase c = some lexed) :
    Continues c lexed := by
  unfold aside? at h
  split at h
  · obtain rfl := Option.some.inj h
    exact continues_of_advances c Production.advances_comment
  · split at h
    · obtain rfl := Option.some.inj h
      exact .error _
    · split at h
      · obtain rfl := Option.some.inj h
        exact continues_of_advances c Production.advances_instruction
      · simp at h

private theorem continues_beforeRoot (c : Cursor) : Continues c (beforeRoot c) := by
  refine Continues.of_reaches ?_ (reaches_skipSpaces c)
  unfold beforeRoot
  dsimp only
  split
  · exact .none
  · split
    · rename_i h; exact continues_aside? h
    · split
      · exact continues_of_advances _ Production.advances_elementStart
      · exact .error _

private theorem continues_beforeDoctype (c : Cursor) : Continues c (beforeDoctype c) := by
  refine Continues.of_reaches ?_ (reaches_skipSpaces c)
  unfold beforeDoctype
  dsimp only
  split
  · exact continues_of_advances _ Production.advances_doctype
  · split
    · rename_i h; exact continues_aside? h
    · exact continues_beforeRoot _

theorem reaches_of_skipDeclarations {c d : Cursor} (h : skipDeclarations c = .ok d) : c.Reaches d := by
  fun_induction skipDeclarations c with
  | case1 => simp at h
  | case2 c e _ _ _ _ ih => exact (reaches_skipSpaces c).trans (.trans ⟨_, rfl⟩ (ih h))
  | case3 c e =>
    obtain rfl := Except.ok.inj h
    exact reaches_skipSpaces c

theorem continues_inDoctypeAt (c : Cursor) : Continues c (inDoctypeAt c) := by
  unfold inDoctypeAt
  split
  · exact .none
  · split
    · exact continues_of_advances _ Production.advances_entityDeclaration
    · split
      · exact continues_of_advances _ Production.advances_doctypeEnd
      · split
        · rename_i h; exact continues_aside? h
        · exact .error _

private theorem continues_inDoctype (c : Cursor) : Continues c (inDoctype c) := by
  unfold inDoctype
  split
  · exact .error _
  · rename_i d hd
    exact (continues_inDoctypeAt d).of_reaches (reaches_of_skipDeclarations hd)

private theorem continues_content (depth : Nat) (c : Cursor) : Continues c (content depth c) := by
  unfold content
  split
  · exact .none
  · rename_i hc
    split
    · split
      · rename_i h; exact continues_aside? h
      · split
        · exact continues_of_advances _ Production.advances_cdataSection
        · split
          · exact .error _
          · split
            · exact continues_of_advances _ Production.advances_closeTag
            · exact continues_of_advances _ Production.advances_elementStart
    · rename_i hm
      exact continues_construct fun r hr => Production.length_of_textRun hc (eq_false_of_ne_true hm) hr

private theorem continues_next? (l : Lexer) : Continues l.cursor l.next? := by
  unfold next?
  split
  · unfold opening
    split
    · exact continues_of_advances _ Production.advances_declaration
    · exact continues_beforeDoctype _
  · exact continues_beforeDoctype _
  · exact continues_inDoctype _
  · exact continues_beforeRoot _
  · exact continues_content _ _
  · unfold inTag
    split
    · exact .none
    · exact continues_of_advances _ Production.advances_inTag
  · unfold afterRoot
    refine Continues.of_reaches ?_ (reaches_skipSpaces _)
    dsimp only
    split
    · exact .none
    · split
      · rename_i h; exact continues_aside? h
      · exact .error _

/-- A token moves the cursor over some of the text ahead. -/
theorem reaches_of_next? {l l' : Lexer} {t : Token} (h : l.next? = .ok (some (t, l'))) : l.cursor.Reaches l'.cursor :=
  (continues_next? l t l' h).1

/-- Every token takes at least one character of the text. -/
theorem length_of_next? {l l' : Lexer} {t : Token} (h : l.next? = .ok (some (t, l'))) :
    l'.cursor.rest.length < l.cursor.rest.length :=
  (continues_next? l t l' h).2

end Lexer

end MapMarkup.Xml
