import MapMarkup.Proofs.Substitution

/-!
# Attribute values are normalised, then expanded

In an attribute value the literal runs between the references are normalised one by one, while the value is expanded.
This is the same as normalising the whole value first and expanding it as a text after that: a line break is not torn
apart by an ampersand or a semicolon, and a reference with a line break or a tab in it means nothing before and after,
as long as there is no white space in the names of entities (`Entities.expand_attributeValue`). What references stand
for is inserted after the normalisation and keeps its white space. Where there is nothing to normalise and no reference
to replace, a text may be kept without looking for its pieces.
-/

namespace MapMarkup.Xml

/-- What is wrong with a document, apart from where. -/
inductive ReadError.Kind where
  | malformed
  | undefinedQualifier
  | undefinedEntity
  | brokenReference
  | externalEntity
  | mismatchedEndTag
  | unexpectedEndTag
  | unclosedElement
deriving DecidableEq, Repr

def ReadError.kind : ReadError → Kind
  | .malformed _ => .malformed
  | .undefinedQualifier _ => .undefinedQualifier
  | .undefinedEntity _ => .undefinedEntity
  | .brokenReference _ => .brokenReference
  | .externalEntity _ => .externalEntity
  | .mismatchedEndTag _ _ => .mismatchedEndTag
  | .unexpectedEndTag _ => .unexpectedEndTag
  | .unclosedElement _ => .unclosedElement

/-! ### Spaces for line breaks and tabs -/

section SpaceOut

variable {c : Char} {cs : List Char}

/-- The characters that are not literal in an attribute value. -/
def isBreak (c : Char) : Bool :=
  c = '\r' || c = '\n' || c = '\t'

private theorem isSpace_of_isBreak (h : isBreak c) : isSpace c := by
  simp only [isBreak, Bool.or_eq_true, decide_eq_true_eq] at h
  rcases h with (rfl | rfl) | rfl <;> rfl

private theorem spaceOut_of_not_isBreak (h : ∀ c ∈ cs, isBreak c = false) : spaceOut cs = cs := by
  fun_induction spaceOut cs with
  | case1 => rfl
  | case2 cs _ => exact absurd (h '\r' (by simp)) (by decide)
  | case3 c cs _ ih =>
    have hc := h c (by simp)
    simp only [isBreak] at hc
    rw [if_neg (by simp [hc]), ih fun d hd => h d (List.mem_cons_of_mem c hd)]

private theorem spaceOut_ne_nil (h : cs ≠ []) : spaceOut cs ≠ [] := by
  fun_cases spaceOut cs with
  | case1 => exact absurd rfl h
  | case2 | case3 => simp

private theorem mem_of_mem_spaceOut (h : c ∈ spaceOut cs) : c = ' ' ∨ c ∈ cs := by
  fun_induction spaceOut cs with
  | case1 => simp at h
  | case2 cs ih =>
    rcases List.mem_cons.1 h with rfl | h
    · exact .inl rfl
    · exact (ih h).imp id fun h => by simp [h]
  | case3 d cs _ ih =>
    rcases List.mem_cons.1 h with rfl | h
    · by_cases hd : (d = '\r' || d = '\n' || d = '\t') = true
      · exact .inl (if_pos hd)
      · exact .inr (by rw [if_neg hd]; simp)
    · exact (ih h).imp id fun h => List.mem_cons_of_mem d h

private theorem not_mem_spaceOut (hc : isSpace c = false) (h : c ∉ cs) : c ∉ spaceOut cs := by
  intro hmem
  rcases mem_of_mem_spaceOut hmem with rfl | hmem
  · exact absurd hc (by decide)
  · exact h hmem

private theorem space_mem_spaceOut (h : ∃ c ∈ cs, isBreak c) : ' ' ∈ spaceOut cs := by
  fun_induction spaceOut cs with
  | case1 => simp at h
  | case2 cs _ => simp
  | case3 d cs _ ih =>
    by_cases hd : (d = '\r' || d = '\n' || d = '\t') = true
    · rw [if_pos hd]
      simp
    · obtain ⟨c, hc, hbreak⟩ := h
      rcases List.mem_cons.1 hc with rfl | hc
      · exact absurd hbreak hd
      · exact List.mem_cons_of_mem _ (ih ⟨c, hc, hbreak⟩)

private theorem head?_spaceOut_eq_iff (hc : isSpace c = false) : (spaceOut cs).head? = some c ↔ cs.head? = some c := by
  have hne : ∀ d, isSpace d = true → d ≠ c := by
    rintro d hd rfl
    exact absurd hd (by simp [hc])
  fun_cases spaceOut cs with
  | case1 => rfl
  | case2 cs => simp [hne ' ' rfl, hne '\r' rfl]
  | case3 d cs =>
    by_cases hd : (d = '\r' || d = '\n' || d = '\t') = true
    · have hspace : isSpace d = true := isSpace_of_isBreak hd
      simp [hd, hne ' ' rfl, hne d hspace]
    · simp [hd]

end SpaceOut

/-! ### References in a value -/

namespace Entities

/-- No name has white space in it. -/
def Spaceless (entities : Entities) : Prop :=
  ∀ entry ∈ entities, ∀ c ∈ entry.1, isSpace c = false

instance (entities : Entities) : Decidable entities.Spaceless :=
  decidable_of_iff (entities.all fun entry => entry.1.all fun c => !isSpace c) (by simp [Spaceless])

private theorem Spaceless.get?_eq_none {entities : Entities} (h : entities.Spaceless) {name : List Char}
    (hname : ∃ c ∈ name, isSpace c) : entities.get? name = none := by
  obtain ⟨c, hc, hspace⟩ := hname
  unfold get?
  rw [List.lookup_eq_none_iff]
  intro entry hentry
  rw [bne_iff_ne]
  rintro rfl
  exact absurd hspace (by simp [h entry hentry c hc])

/-- What a reference inserts: the character that it stands for, or the text of the entity as it is stored. -/
def Inserts (entities : Entities) (written text : List Char) : Prop :=
  match referent written with
  | .character c => text = [c]
  | .invalid => False
  | .entity => entities.get? written = some text

end Entities

private theorem not_isReferenceChar_of_isSpace {c : Char} (h : isSpace c) : isReferenceChar c = false := by
  simp only [isSpace, Bool.or_eq_true, decide_eq_true_eq] at h
  rcases h with ((rfl | rfl) | rfl) | rfl <;> decide

/-- A reference with white space in it does not stand for a character. -/
private theorem referent_of_isSpace {written : List Char} (h : ∃ c ∈ written, isSpace c) :
    referent written = if written.head? = some '#' then .invalid else .entity := by
  obtain ⟨c, hc, hspace⟩ := h
  have hnot : ∀ d, referent written ≠ .character d := by
    intro d hd
    have := isReferenceChar_of_referent hd c hc
    simp [not_isReferenceChar_of_isSpace hspace] at this
  by_cases hhead : written.head? = some '#'
  · rw [if_pos hhead]
    cases hreferent : referent written with
    | character d => exact absurd hreferent (hnot d)
    | invalid => rfl
    | entity => exact absurd hhead (referent_eq_entity_iff.1 hreferent)
  · rw [if_neg hhead]
    exact referent_eq_entity_iff.2 hhead

namespace Substitution

variable {entities : Entities}

private theorem piece_expansion_eq_ok_iff {context : Context} {o : Nat} {written text : List Char} :
    (expansion entities context).piece (.reference ⟨o, written⟩) = .ok text ↔ entities.Inserts written text := by
  simp only [piece, expansion, Entities.Inserts]
  cases referent written with
  | character c => simp [eq_comm]
  | invalid => simp
  | entity => cases entities.get? written <;> simp

/-- What a reference is replaced by depends neither on where it stands nor on the context. -/
private theorem mapError_piece_expansion (context context' : Context) (o o' : Nat) (written : List Char) :
    ((expansion entities context).piece (.reference ⟨o, written⟩)).mapError ReadError.kind =
      ((expansion entities context').piece (.reference ⟨o', written⟩)).mapError ReadError.kind := by
  simp only [piece, expansion]
  split
  · rfl
  · rfl
  · cases entities.get? written <;> rfl

private theorem mapError_piece_of_isSpace (hnames : entities.Spaceless) (context : Context) (o : Nat)
    {written : List Char}
    (h : ∃ c ∈ written, isSpace c) :
    ((expansion entities context).piece (.reference ⟨o, written⟩)).mapError ReadError.kind =
      .error (if written.head? = some '#' then .brokenReference else .undefinedEntity) := by
  by_cases hhead : written.head? = some '#'
  · simp only [piece, referent_of_isSpace h, if_pos hhead]
    rfl
  · simp only [piece, expansion, referent_of_isSpace h, if_neg hhead, hnames.get?_eq_none h]
    rfl

/-- Normalising the name of a reference does not give it another meaning. -/
private theorem mapError_piece_spaceOut (hnames : entities.Spaceless) (o o' : Nat) (written : List Char) :
    ((expansion entities .attributeValue).piece (.reference ⟨o, written⟩)).mapError ReadError.kind =
      ((expansion entities .content).piece (.reference ⟨o', spaceOut written⟩)).mapError ReadError.kind := by
  by_cases hbreak : ∃ c ∈ written, isBreak c
  · have hbefore : ∃ c ∈ written, isSpace c := by
      obtain ⟨c, hc, h⟩ := hbreak
      exact ⟨c, hc, isSpace_of_isBreak h⟩
    have hafter : ∃ c ∈ spaceOut written, isSpace c := ⟨' ', space_mem_spaceOut hbreak, rfl⟩
    rw [mapError_piece_of_isSpace hnames _ _ hbefore, mapError_piece_of_isSpace hnames _ _ hafter]
    simp only [head?_spaceOut_eq_iff (c := '#') (by decide)]
  · have hsame : spaceOut written = written := by
      refine spaceOut_of_not_isBreak fun c hc => ?_
      by_contra h
      exact hbreak ⟨c, hc, by simpa using h⟩
    rw [hsame]
    exact mapError_piece_expansion _ _ _ _ _

/-! ### Whole values -/

/-- The value that is normalised run by run, and the one that is normalised as a whole. -/
private theorem mapError_apply_spaceOut (hnames : entities.Spaceless) (o o' : Nat) (cs : List Char) :
    ((expansion entities .attributeValue).apply ⟨o, cs⟩).mapError ReadError.kind =
      ((expansion entities .content).apply ⟨o', spaceOut cs⟩).mapError ReadError.kind := by
  have hrun : ∀ run, (expansion entities .attributeValue).run run = spaceOut run := fun _ => rfl
  have hkept : ∀ run, (expansion entities .content).run run = run := fun _ => rfl
  have hamp : isSpace '&' = false := by decide
  have hsemicolon : isSpace ';' = false := by decide
  induction cs using induction_pieces generalizing o o' with
  | nil =>
    rw [apply_nil, show spaceOut [] = [] from rfl, apply_nil]
  | plain run h _ =>
    rw [apply_run _ h, apply_run _ (not_mem_spaceOut hamp h), hrun, hkept]
  | last run h =>
    rw [spaceOut_append_cons hamp, show spaceOut [] = [] from rfl, apply_lastAmpersand _ h,
      apply_lastAmpersand _ (not_mem_spaceOut hamp h), hrun, hkept]
  | unclosed run cs h hne hcs =>
    rw [spaceOut_append_cons hamp, apply_unclosed _ h hne hcs,
      apply_unclosed _ (not_mem_spaceOut hamp h) (spaceOut_ne_nil hne) (not_mem_spaceOut hsemicolon hcs)]
    rfl
  | reference run written cs h hwritten ih =>
    rw [spaceOut_append_cons hamp, spaceOut_append_cons hsemicolon, apply_reference _ h hwritten,
      apply_reference _ (not_mem_spaceOut hamp h) (not_mem_spaceOut hsemicolon hwritten), hrun, hkept]
    simp only [mapError_followedBy]
    rw [mapError_piece_spaceOut hnames, ih]

end Substitution

/-- Whether there is nothing to replace in a text: no reference, and in an attribute value neither a line break nor a
tab. -/
def Context.leavesAsWritten (context : Context) (cs : List Char) : Bool :=
  !cs.contains '&' && (context = .content || !cs.any isBreak)

namespace Entities

/-- The expansion of a text that is kept where there is nothing to replace. -/
def expandOrKeep (entities : Entities) (context : Context) (p : Passage) : Except ReadError (List Char) :=
  if context.leavesAsWritten p.chars then .ok p.chars else entities.expand context p

private theorem expandOrKeep_eq (entities : Entities) (context : Context) (p : Passage) :
    entities.expandOrKeep context p = entities.expand context p := by
  unfold expandOrKeep
  by_cases h : context.leavesAsWritten p.chars = true
  · rw [if_pos h]
    simp only [Context.leavesAsWritten, Bool.and_eq_true, Bool.not_eq_true', List.contains_eq_mem,
      decide_eq_false_iff_not, Bool.or_eq_true, decide_eq_true_eq, List.any_eq_false] at h
    obtain ⟨hamp, hbreak⟩ := h
    have hrun : (Substitution.expansion entities context).run p.chars = p.chars := by
      cases context with
      | content => rfl
      | attributeValue =>
        have hnone : ∀ c ∈ p.chars, isBreak c = false := by simpa using hbreak
        exact spaceOut_of_not_isBreak hnone
    rw [Substitution.expand_eq_apply, Substitution.apply_run _ hamp, hrun]
  · rw [if_neg h]

/-- Expanding a value as that of an attribute is normalising all of it and then expanding it as a text: the one
succeeds if and only if the other does, with the same text, and if they fail, then for the same kind of error. What the
references of the value stand for is inserted as it is, white space included, between what is made of the parts in front
of it and behind it; and a value may be kept as it is written where there is nothing to replace. -/
theorem expand_attributeValue (entities : Entities) (hnames : entities.Spaceless) (o : Nat) (cs : List Char) :
    (∀ text, entities.expand .attributeValue ⟨o, cs⟩ = .ok text ↔
      entities.expand .content ⟨o, spaceOut cs⟩ = .ok text) ∧
    (∀ e, entities.expand .attributeValue ⟨o, cs⟩ = .error e →
      ∃ e', entities.expand .content ⟨o, spaceOut cs⟩ = .error e' ∧ e'.kind = e.kind) ∧
    (∀ left written right, cs = left ++ '&' :: (written ++ ';' :: right) → Closed left → ';' ∉ written →
      ∀ text, entities.expand .attributeValue ⟨o, cs⟩ = .ok text ↔ ∃ before inserted after,
        entities.expand .attributeValue ⟨o, left⟩ = .ok before ∧ entities.Inserts written inserted ∧
          entities.expand .attributeValue ⟨o + utf8Size left + 1 + utf8Size written + 1, right⟩ = .ok after ∧
          text = before ++ inserted ++ after) ∧
    ∀ context, entities.expandOrKeep context ⟨o, cs⟩ = entities.expand context ⟨o, cs⟩ := by
  have hsame := Substitution.mapError_apply_spaceOut hnames o o cs
  simp only [← Substitution.expand_eq_apply] at hsame
  refine ⟨?_, ?_, ?_, fun context => entities.expandOrKeep_eq context ⟨o, cs⟩⟩
  · intro text
    generalize entities.expand .attributeValue ⟨o, cs⟩ = asValue at hsame
    generalize entities.expand .content ⟨o, spaceOut cs⟩ = asText at hsame
    cases asValue <;> cases asText <;> simp_all [Except.mapError]
  · intro e he
    rw [he] at hsame
    generalize entities.expand .content ⟨o, spaceOut cs⟩ = asText at hsame
    cases asText with
    | ok text => simp [Except.mapError] at hsame
    | error e' => exact ⟨e', rfl, (Except.error.inj hsame).symm⟩
  · rintro left written right rfl hleft hwritten text
    simp only [Substitution.expand_eq_apply]
    rw [Substitution.apply_append_reference _ hleft hwritten]
    simp only [followedBy_eq_ok_iff, Substitution.piece_expansion_eq_ok_iff]
    constructor
    · rintro ⟨before, rest, hbefore, ⟨inserted, after, hinserted, hafter, rfl⟩, rfl⟩
      exact ⟨before, inserted, after, hbefore, hinserted, hafter, (List.append_assoc _ _ _).symm⟩
    · rintro ⟨before, inserted, after, hbefore, hinserted, hafter, rfl⟩
      exact ⟨before, inserted ++ after, hbefore, ⟨inserted, after, hinserted, hafter, rfl⟩, List.append_assoc _ _ _⟩

/-- The line break and the tab of the value become spaces, the tab of the entity and the line feed of the reference are
kept. -/
theorem expand_attributeValue_insertedBreaks :
    let entities := predefined.declare "tab".toList ['\t']
    let cs := "a\r\n&tab;\t&#10;\r".toList
    entities.Spaceless ∧ entities.expand .attributeValue ⟨0, cs⟩ = .ok "a \t \n ".toList ∧
      entities.expand .content ⟨0, "a &tab; &#10; ".toList⟩ = .ok "a \t \n ".toList := by
  intro entities cs
  have hnames : entities.Spaceless := by decide +kernel
  have hvalue : entities.expand .attributeValue ⟨0, cs⟩ = .ok "a \t \n ".toList := by decide +kernel
  exact ⟨hnames, hvalue, ((expand_attributeValue entities hnames 0 cs).1 _).1 hvalue⟩

end Entities

end MapMarkup.Xml
