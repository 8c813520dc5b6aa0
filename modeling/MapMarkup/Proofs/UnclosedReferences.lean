import MapMarkup.Proofs.ReferencePlaces

/-!
# Ampersands without a semicolon

An ampersand with no semicolon behind it cannot be the start of a reference. Where it stands inside a passage, or inside
a reference that is open already, the call that reads the passage fails, for this reference or for something in front of
it. An ampersand that ends a passage and opens nothing is passed over instead, and no error tells of it
(`Reader.read_unclosedReference`).
-/

namespace MapMarkup.Xml

/-- A passage that cannot be read has a reference that is in error. -/
private theorem Purpose.isAboutReference_of_read {entities : Entities} {purpose : Purpose} {p : Passage} {e : ReadError}
    (h : purpose.read entities p = .error e) : e.IsAboutReference p.span := by
  rw [purpose.read_eq_apply] at h
  exact (purpose.substitution entities).isAboutReference_of_apply h

namespace Reader

/-- Reading a passage in which an ampersand has no semicolon behind it. If the ampersand is the last character and opens
nothing, the passage is read as if it ended in front of it. Otherwise its reading fails, for this ampersand or for a
reference in front of it, and with it the call; in a start tag the call may also fail for an earlier value or for a
qualifier. So a document that is read without an error has no other such ampersands. -/
theorem read_unclosedReference (source : List Char) (systemId : Option String) (left : List Char) {right : List Char}
    (hright : ';' ∉ right) :
    let r : Reader := start source systemId
    (∀ k purpose earlier p later, r.Treats k purpose (earlier ++ p :: later) → p.chars = left ++ '&' :: right →
      let read := purpose.read (r.afterCalls k).entities
      (right = [] ∧ Closed left → read p = read ⟨p.offset, left⟩) ∧
      (¬ (right = [] ∧ Closed left) →
        ∃ e, read p = .error e ∧ e.IsAboutReference ⟨p.offset, p.offset + utf8Size left + 1⟩ ∧
          ∃ e', (r.call k).2 = .failed e' ∧
            (e' = e ∨ (∃ q ∈ earlier, read q = .error e' ∧ e'.IsAboutReference q.span) ∨
              purpose = .attributeValue ∧ ∃ qualifier, e' = .undefinedQualifier qualifier))) ∧
    (r.error? = none → ∀ j t purpose p, r.tokenOfCall j = some t → t.passage? = some (purpose, p) →
      p.chars = left ++ '&' :: right → right = [] ∧ Closed left) := by
  intro r
  have hpassage : ∀ (entities : Entities) (purpose : Purpose) (p : Passage), p.chars = left ++ '&' :: right →
      (right = [] ∧ Closed left → purpose.read entities p = purpose.read entities ⟨p.offset, left⟩) ∧
      (¬ (right = [] ∧ Closed left) → ∃ e, purpose.read entities p = .error e ∧
        e.IsAboutReference ⟨p.offset, p.offset + utf8Size left + 1⟩) := by
    rintro entities purpose ⟨o, cs⟩ hp
    obtain rfl : cs = left ++ '&' :: right := hp
    simp only [purpose.read_eq_apply]
    exact (purpose.substitution entities).apply_of_unclosed hright o
  constructor
  · intro k purpose earlier p later htreats hp read
    refine ⟨(hpassage _ purpose p hp).1, fun hnot => ?_⟩
    obtain ⟨e, he, habout⟩ := (hpassage _ purpose p hp).2 hnot
    obtain ⟨e', hcall, hcause⟩ := htreats.call_of_error he
    refine ⟨e, he, habout, e', hcall, hcause.imp_right (Or.imp_left ?_)⟩
    rintro ⟨q, hq, hread⟩
    exact ⟨q, hq, hread, Purpose.isAboutReference_of_read hread⟩
  · intro hread j t purpose p htoken hpurpose hp
    by_contra hnot
    obtain ⟨k, -, ps, htreats, hmem, hcall⟩ := exists_treats hread htoken hpurpose
    obtain ⟨earlier, later, rfl⟩ := List.append_of_mem hmem
    obtain ⟨e, he, -⟩ := (hpassage _ purpose p hp).2 hnot
    obtain ⟨e', hfailed, -⟩ := htreats.call_of_error he
    simp [hcall] at hfailed

/-- The text of `<a>&b</a>`. -/
theorem read_unclosedReference_text :
    let r := start "<a>&b</a>".toList none
    ';' ∉ ['b'] ∧ r.Treats 2 .text [⟨3, "&b".toList⟩] ∧
      ∃ e', (r.call 2).2 = .failed e' ∧ e'.IsAboutReference ⟨3, 4⟩ := by
  intro r
  have hnot : ';' ∉ ['b'] := by decide
  have htext : (r.afterCalls 2).lexer.next? =
      .ok (some (.text ⟨3, "&b".toList⟩, ⟨.content 1, ⟨⟨5, 1, 6⟩, "</a>".toList⟩⟩)) := by decide +kernel
  have htreats : r.Treats 2 .text [⟨3, "&b".toList⟩] := .text (by decide +kernel) htext
  obtain ⟨e, -, habout, e', hcall, rfl | ⟨q, hq, -⟩ | ⟨hpurpose, -⟩⟩ :=
    ((read_unclosedReference "<a>&b</a>".toList none [] hnot).1 2 .text [] _ [] htreats rfl).2 (by simp)
  · exact ⟨hnot, htreats, e', hcall, habout⟩
  · simp at hq
  · simp at hpurpose

/-- An ampersand at the end of a text, of the value of an attribute or of that of an entity, and one in the value of a
declaration, are read without an error. -/
theorem error?_eq_none_of_lastAmpersand :
    let inText := start "<a>&</a>".toList none
    let inAttribute := start "<a b='&'/>".toList none
    let inEntity := start "<!DOCTYPE a [<!ENTITY b '&'>]><a/>".toList none
    let inDeclaration := start "<a xmlns='&b'/>".toList none
    (inText.tokenOfCall 2 = some (.text ⟨3, ['&']⟩) ∧ inText.error? = none) ∧
    (inAttribute.tokenOfCall 1 = some (.attribute ⟨⟨3, []⟩, ⟨3, ['b']⟩⟩ ⟨6, ['&']⟩) ∧ inAttribute.error? = none) ∧
    (inEntity.tokenOfCall 1 = some (.entity ⟨22, ['b']⟩ (some ⟨25, ['&']⟩)) ∧ inEntity.error? = none) ∧
    (inDeclaration.tokenOfCall 1 = some (.attribute ⟨⟨3, []⟩, ⟨3, "xmlns".toList⟩⟩ ⟨10, "&b".toList⟩) ∧
      inDeclaration.error? = none) := by
  decide +kernel

end Reader

end MapMarkup.Xml
