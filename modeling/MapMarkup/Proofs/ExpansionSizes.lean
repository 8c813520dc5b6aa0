import Mathlib.Algebra.GroupWithZero.Nat
import Mathlib.Data.List.DropRight
import MapMarkup.Proofs.Passages
import MapMarkup.Proofs.ReferencePlaces

/-!
# How large expanded texts get

A reference to a character is at least as long as the character, and white space does not get longer either. So the
replacement text of an entity is not longer than the value of its declaration, in which references to entities stay as
they are; and a text grows by at most one replacement text for each of its references
(`Substitution.utf8Size_le_of_apply`). The raw texts stand one behind the other in the document, those of a start tag in
front of the call that hands them on (`Reader.totalSize_rawTextsOfCalls_le`). Whatever the entities of a document are
declared with, all that a reader hands on is therefore at most quadratic in the size of the document
(`Reader.utf8Size_texts_le`).
-/

namespace MapMarkup.Xml

/-! ### References -/

def Piece.isReference : Piece → Bool
  | .reference _ => true
  | .literal _ | .unclosed _ => false

/-- The number of references in a passage. -/
def Passage.references (p : Passage) : Nat :=
  (pieces p.offset p.chars).countP Piece.isReference

private theorem utf8Size_reference (run written cs : List Char) :
    utf8Size (run ++ '&' :: (written ++ ';' :: cs)) = utf8Size run + (utf8Size written + 2) + utf8Size cs := by
  have hsize : Char.utf8Size '&' = 1 ∧ Char.utf8Size ';' = 1 := by decide
  simp only [utf8Size_append, utf8Size_cons, hsize]
  omega

section References

variable {run written cs : List Char}

private theorem references_reference (o : Nat) (hrun : '&' ∉ run) (hwritten : ';' ∉ written) (cs : List Char) :
    Passage.references ⟨o, run ++ '&' :: (written ++ ';' :: cs)⟩ =
      Passage.references ⟨o + utf8Size run + 1 + utf8Size written + 1, cs⟩ + 1 := by
  simp only [Passage.references, pieces_reference o hrun hwritten]
  rw [List.countP_cons_of_neg (by simp [Piece.isReference]), List.countP_cons_of_pos rfl]

/-- A reference has at least its ampersand and its semicolon. -/
private theorem references_le (o : Nat) (cs : List Char) : Passage.references ⟨o, cs⟩ ≤ utf8Size cs := by
  induction cs using induction_pieces generalizing o with
  | nil => simp [Passage.references]
  | plain run hrun hne => simp [Passage.references, pieces_of_not_mem o hrun hne, Piece.isReference]
  | last run hrun => simp [Passage.references, pieces_lastAmpersand o hrun, Piece.isReference]
  | unclosed run cs hrun hne hcs => simp [Passage.references, pieces_unclosed o hrun hne hcs, Piece.isReference]
  | reference run written cs hrun hwritten ih =>
    have hrest := ih (o + utf8Size run + 1 + utf8Size written + 1)
    rw [references_reference o hrun hwritten, utf8Size_reference]
    omega

end References

/-! ### Sizes of replacements -/

private theorem utf8Size_spaceOut_le (cs : List Char) : utf8Size (spaceOut cs) ≤ utf8Size cs := by
  have hspace : Char.utf8Size ' ' = 1 := by decide
  fun_induction spaceOut cs with
  | case1 => exact Nat.le_refl _
  | case2 cs ih =>
    have hpos := Char.utf8Size_pos '\r'
    simp only [utf8Size_cons, hspace]
    omega
  | case3 c cs _ ih =>
    have hpos := c.utf8Size_pos
    simp only [utf8Size_cons]
    split
    · rw [hspace]
      omega
    · omega

/-- A reference to a character is written with a number sign and a digit, at least. -/
private theorem utf8Size_le_of_referent {written : List Char} {c : Char} (h : referent written = .character c) :
    c.utf8Size ≤ utf8Size written + 2 := by
  have hmost := c.utf8Size_le_four
  rcases written with _ | ⟨mark, number⟩
  · nomatch h
  · have hmark := mark.utf8Size_pos
    have hnumber : number ≠ [] := by
      rintro rfl
      unfold referent at h
      split at h
      · rename_i heq
        obtain rfl := (List.cons.inj heq).2
        simp [number?] at h
      · simp at h
    obtain ⟨d, ds, rfl⟩ := List.exists_cons_of_ne_nil hnumber
    have hd := d.utf8Size_pos
    simp only [utf8Size_cons]
    omega

namespace Substitution

/-- A text grows by at most `most` bytes for each of its references, if its runs do not grow and entities are not
replaced by more than this. -/
theorem utf8Size_le_of_apply (s : Substitution) (most : Nat) {o : Nat} {cs text : List Char}
    (hrun : ∀ run, utf8Size (s.run run) ≤ utf8Size run)
    (hentity : ∀ name text, s.entity name = .ok text → utf8Size text ≤ utf8Size name.chars + 2 + most)
    (h : s.apply ⟨o, cs⟩ = .ok text) : utf8Size text ≤ utf8Size cs + Passage.references ⟨o, cs⟩ * most := by
  induction cs using induction_pieces generalizing o text with
  | nil =>
    rw [apply_nil] at h
    obtain rfl := Except.ok.inj h
    exact Nat.zero_le _
  | plain run hplain _ =>
    rw [apply_run s hplain] at h
    obtain rfl := Except.ok.inj h
    exact Nat.le_add_right_of_le (hrun run)
  | last run hplain =>
    rw [apply_lastAmpersand s hplain] at h
    obtain rfl := Except.ok.inj h
    rw [utf8Size_append]
    exact Nat.le_add_right_of_le (Nat.le_add_right_of_le (hrun run))
  | unclosed run cs hplain hne hcs => simp [apply_unclosed s hplain hne hcs] at h
  | reference run written cs hplain hwritten ih =>
    rw [apply_reference s hplain hwritten] at h
    obtain ⟨front, behind, hfront, hbehind, rfl⟩ := followedBy_eq_ok_iff.1 h
    obtain ⟨inserted, rest, hinserted, hrest, rfl⟩ := followedBy_eq_ok_iff.1 hbehind
    obtain rfl := Except.ok.inj hfront
    have hpiece : utf8Size inserted ≤ utf8Size written + 2 + most := by
      unfold piece at hinserted
      dsimp only at hinserted
      split at hinserted
      · rename_i c hc
        obtain rfl := Except.ok.inj hinserted
        have hsize := utf8Size_le_of_referent hc
        rw [utf8Size_cons, utf8Size_nil]
        omega
      · simp at hinserted
      · exact hentity _ _ hinserted
    have hruns := hrun run
    have hlater := ih hrest
    rw [references_reference o hplain hwritten, utf8Size_reference, Nat.succ_mul]
    simp only [utf8Size_append]
    omega

end Substitution

/-- The references in a value are not expanded, unless they are to characters. -/
private theorem utf8Size_replacementText_le {value : Passage} {text : List Char}
    (h : replacementText value = .ok text) :
    utf8Size text ≤ utf8Size value.chars := by
  rw [Substitution.replacementText_eq_apply] at h
  have hsize := Substitution.replacement.utf8Size_le_of_apply 0 (fun _ => Nat.le_refl _) ?_ h
  · rwa [Nat.mul_zero] at hsize
  · intro name text htext
    obtain rfl := Except.ok.inj htext
    have hmarks : Char.utf8Size '&' = 1 ∧ Char.utf8Size ';' = 1 := by decide
    simp only [List.cons_append, utf8Size_cons, utf8Size_append, utf8Size_nil, hmarks]
    omega

/-! ### Tables of entities -/

namespace Entities

variable {entities : Entities} {name text : List Char}

/-- The replacement texts of names. A later entry of a name is not among them. -/
def stored (entities : Entities) : List (List Char) :=
  entities.filterMap fun entry => entities.get? entry.1

/-- The size of the longest replacement text. -/
def longest (entities : Entities) : Nat :=
  (entities.stored.map utf8Size).max?.getD 0

private theorem mem_stored_iff : text ∈ entities.stored ↔ ∃ name, entities.get? name = some text := by
  rw [stored, List.mem_filterMap]
  constructor
  · rintro ⟨entry, -, h⟩
    exact ⟨entry.1, h⟩
  · rintro ⟨name, h⟩
    obtain ⟨front, back, heq, -⟩ := List.lookup_eq_some_iff.1 h
    exact ⟨(name, text), by rw [heq]; simp, h⟩

private theorem utf8Size_le_longest (h : entities.get? name = some text) : utf8Size text ≤ entities.longest :=
  List.le_max?_getD_of_mem (List.mem_map_of_mem (mem_stored_iff.2 ⟨name, h⟩))

private theorem longest_le {n : Nat} (h : ∀ name text, entities.get? name = some text → utf8Size text ≤ n) :
    entities.longest ≤ n := by
  unfold longest
  cases hmax : (entities.stored.map utf8Size).max? with
  | none => exact Nat.zero_le n
  | some m =>
    obtain ⟨text, htext, rfl⟩ := List.mem_map.1 (List.max?_mem hmax)
    obtain ⟨name, hname⟩ := mem_stored_iff.1 htext
    exact h name text hname

/-- Entries that are added do not make names mean something else. -/
private theorem longest_le_of_append (entities added : Entities) : entities.longest ≤ longest (entities ++ added) := by
  refine longest_le fun name text h => ?_
  have hadded : get? (entities ++ added) name = some text := by
    rw [get?, List.lookup_append]
    exact Option.or_eq_some_iff.2 (.inl h)
  exact utf8Size_le_longest hadded

/-- An expanded text is longer than the text by at most one replacement text for each reference. -/
private theorem utf8Size_expand_le {context : Context} {p : Passage} {text : List Char}
    (h : entities.expand context p = .ok text) :
    utf8Size text ≤ utf8Size p.chars + p.references * entities.longest := by
  rw [Substitution.expand_eq_apply] at h
  refine Substitution.utf8Size_le_of_apply _ _ (fun run => ?_) (fun name text htext => ?_) h
  · cases context with
    | content => exact Nat.le_refl _
    | attributeValue => exact utf8Size_spaceOut_le run
  · simp only [Substitution.expansion] at htext
    split at htext
    · rename_i stored hstored
      obtain rfl := Except.ok.inj htext
      exact Nat.le_add_left_of_le (utf8Size_le_longest hstored)
    · simp at htext

private theorem utf8Size_predefined (h : predefined.get? name = some text) : utf8Size text = 1 := by
  obtain ⟨front, back, heq, -⟩ := List.lookup_eq_some_iff.1 h
  have hall : ∀ entry ∈ predefined, utf8Size entry.2 = 1 := by decide
  exact hall (name, text) (by rw [heq]; simp)

end Entities

/-! ### Raw texts -/

/-- The attribute that a token is. -/
def Token.rawAttribute? : Token → Option RawAttribute
  | .attribute name value => some ⟨name, value⟩
  | aside | entity _ _ | elementStart _ _ | openEnd | emptyEnd | closeTag _ _ | text _ | cdata _ => none

/-- The attributes with which a list of tokens ends. -/
def lastAttributes (ts : List Token) : List RawAttribute :=
  (ts.rtakeWhile (·.rawAttribute?.isSome)).filterMap Token.rawAttribute?

/-- The passages whose texts are handed on with a token that comes after the given ones: character data, and at the end
of a start tag the values of its attributes. -/
def Token.handsOn (earlier : List Token) : Token → List Passage
  | text content | cdata content => [content]
  | openEnd | emptyEnd => ordinaryValues (lastAttributes earlier)
  | aside | entity _ _ | elementStart _ _ | .attribute _ _ | closeTag _ _ => []

/-- The size of several passages. -/
def totalSize (ps : List Passage) : Nat :=
  (ps.map fun p => utf8Size p.chars).sum

private theorem totalSize_append (ps qs : List Passage) : totalSize (ps ++ qs) = totalSize ps + totalSize qs := by
  rw [totalSize, List.map_append, List.sum_append]
  rfl

private theorem lastAttributes_concat (ts : List Token) (t : Token) :
    lastAttributes (ts ++ [t]) = t.rawAttribute?.elim [] fun a => lastAttributes ts ++ [a] := by
  unfold lastAttributes
  rw [List.rtakeWhile_concat]
  cases h : t.rawAttribute? with
  | none => simp
  | some a => simp [h]

/-- The attributes of a start tag that is being read. -/
private theorem lastAttributes_tag (before : List Token) (name : QName) (span : Span) (tag : List RawAttribute) :
    lastAttributes (before ++ .elementStart name span :: tag.map RawAttribute.token) = tag := by
  induction tag using List.reverseRecOn with
  | nil => rw [List.map_nil, lastAttributes_concat]; rfl
  | append_singleton tag a ih =>
    rw [List.map_append, List.map_singleton, ← List.cons_append, ← List.append_assoc, lastAttributes_concat, ih]
    rfl

private theorem mem_of_mem_lastAttributes {ts : List Token} {a : RawAttribute} (h : a ∈ lastAttributes ts) :
    a.token ∈ ts := by
  obtain ⟨t, ht, ha⟩ := List.mem_filterMap.1 h
  cases t with
  | «attribute» name value =>
    obtain rfl := Option.some.inj ha
    exact (List.rtakeWhile_suffix _ ts).subset ht
  | _ => simp [Token.rawAttribute?] at ha

private theorem totalSize_ordinaryValues_le (tag : List RawAttribute) :
    totalSize (ordinaryValues tag) ≤ totalSize (tag.map (·.value)) := by
  induction tag with
  | nil => exact Nat.le_refl _
  | cons a tag ih =>
    simp only [totalSize, ordinaryValues, List.map_cons, List.sum_cons, List.filter_cons] at ih ⊢
    split
    · simp only [List.map_cons, List.sum_cons]
      omega
    · omega

/-- The values of the start tag that is being read are held back until its end, and then handed on. -/
private theorem totalSize_handsOn_le {t : Token} {p : Passage} (ts : List Token) (h : t.ReadFrom p) :
    totalSize (t.handsOn ts) + totalSize ((lastAttributes (ts ++ [t])).map (·.value)) ≤
      totalSize ((lastAttributes ts).map (·.value)) + utf8Size p.chars := by
  have hsingle : ∀ q : Passage, q.IsPartOf p → totalSize [q] ≤ utf8Size p.chars := fun q hq => hq.utf8Size_le
  rw [lastAttributes_concat]
  cases h with
  | text hcontent | cdata hcontent =>
    have hle := hsingle _ hcontent
    simp only [Token.handsOn, Token.rawAttribute?, Option.elim_none, List.map_nil]
    exact Nat.le_add_left_of_le hle
  | attr _ _ hvalue =>
    have hle := hsingle _ hvalue
    simp only [Token.handsOn, Token.rawAttribute?, Option.elim_some, List.map_append, List.map_singleton,
      totalSize_append]
    simp only [totalSize, List.map_nil, List.sum_nil] at hle ⊢
    omega
  | openEnd | emptyEnd =>
    have hle := totalSize_ordinaryValues_le (lastAttributes ts)
    exact Nat.le_add_right_of_le hle
  | _ => exact Nat.zero_le _

namespace Reader

/-- The passages whose texts a call hands on. -/
def rawTextsOfCall (r : Reader) (k : Nat) : List Passage :=
  (r.tokenOfCall k).elim [] (Token.handsOn (r.tokensOfCalls k))

/-- The passages whose texts the first `n` calls hand on. -/
def rawTextsOfCalls (r : Reader) : Nat → List Passage
  | 0 => []
  | n + 1 => r.rawTextsOfCalls n ++ r.rawTextsOfCall n

section Calls

variable {source : List Char} {systemId : Option String} {k n : Nat}

private theorem tokenOfCall_eq_none {r : Reader} (h : (r.call k).2 ≠ .token) : r.tokenOfCall k = none := by
  rw [Option.eq_none_iff_forall_ne_some]
  exact fun t ht => h (call_of_tokenOfCall ht)

/-- However many calls there have been, no more of them count than have read tokens. -/
private theorem exists_before_tokens (source : List Char) (systemId : Option String) (n : Nat) :
    let r := start source systemId
    ∃ m, (∀ k < m, (r.call k).2 = .token) ∧ (r.afterCalls n).entities = (r.afterCalls m).entities ∧
      r.declarationsOfCalls n = r.declarationsOfCalls m := by
  intro r
  induction n with
  | zero => exact ⟨0, by simp, rfl, rfl⟩
  | succ n ih =>
    by_cases htoken : (r.call n).2 = .token
    · refine ⟨n + 1, fun k hk => ?_, rfl, rfl⟩
      rcases Nat.lt_succ_iff_lt_or_eq.1 hk with hlt | rfl
      · exact before_of_call_token htoken k hlt
      · exact htoken
    · obtain ⟨m, hbefore, hentities, hdeclared⟩ := ih
      refine ⟨m, hbefore, ?_, ?_⟩
      · rw [(afterCalls_succ_of_ne_token htoken).1]
        exact hentities
      · have hnone : r.declarationOfCall n = none := by
          rw [declarationOfCall, tokenOfCall_eq_none htoken]
        rw [declarationsOfCalls, hnone, Option.toList_none, List.append_nil, hdeclared]

private theorem offset_afterCalls_le (source : List Char) (systemId : Option String) (n : Nat) :
    ((start source systemId).afterCalls n).lexer.cursor.position.offset ≤ utf8Size source := by
  have hreaches := (reaches_afterCalls source systemId n).1
  obtain ⟨skipped, hskipped, -⟩ := hreaches.split
  have hsource : source = skipped ++ _ := hskipped
  rw [hreaches.offset_eq hskipped, hsource, utf8Size_append]
  exact (Nat.zero_add _).trans_le (Nat.le_add_right _ _)

/-- Raw texts and the values of the start tag that is being read stand in front of the cursor. -/
theorem totalSize_rawTextsOfCalls_le (source : List Char) (systemId : Option String) (n : Nat) :
    let r := start source systemId
    totalSize (r.rawTextsOfCalls n) + totalSize ((lastAttributes (r.tokensOfCalls n)).map (·.value)) ≤
      (r.afterCalls n).lexer.cursor.position.offset := by
  intro r
  induction n with
  | zero => exact Nat.zero_le _
  | succ n ih =>
    rw [rawTextsOfCalls, totalSize_append, rawTextsOfCall, tokensOfCalls]
    by_cases htoken : (r.call n).2 = .token
    · obtain ⟨t, lexer, opened, entities, events, ht, hl, -, -, hnext⟩ := exists_of_call_token htoken
      obtain ⟨used, hused, hread⟩ := Lexer.readFrom_of_next? hl
      have hoffset := (Lexer.reaches_of_next? hl).offset_eq hused
      have hstep := totalSize_handsOn_le (r.tokensOfCalls n) hread
      rw [ht, hnext, Option.elim_some, Option.toList_some]
      dsimp only at hstep ⊢
      omega
    · rw [tokenOfCall_eq_none htoken, (afterCalls_succ_of_ne_token htoken).1, Option.toList_none, List.append_nil]
      exact ih

private theorem isPartOf_of_mem_rawTextsOfCall {p : Passage} (h : p ∈ (start source systemId).rawTextsOfCall k) :
    p.IsPartOf (.ofSource source) := by
  unfold rawTextsOfCall at h
  cases ht : (start source systemId).tokenOfCall k with
  | none => simp [ht] at h
  | some t =>
    rw [ht, Option.elim_some] at h
    have hvalue : p ∈ ordinaryValues (lastAttributes ((start source systemId).tokensOfCalls k)) →
        p.IsPartOf (.ofSource source) := by
      intro hp
      obtain ⟨a, ha, rfl⟩ := List.mem_map.1 hp
      have hread := readFrom_of_mem_tokensOfCalls (mem_of_mem_lastAttributes (List.mem_filter.1 ha).1)
      cases hread with
      | attr _ _ hpart => exact hpart
    have hread := readFrom_of_tokenOfCall ht
    cases t with
    | text content | cdata content =>
      obtain rfl := List.mem_singleton.1 h
      cases hread
      assumption
    | openEnd | emptyEnd => exact hvalue h
    | _ => simp [Token.handsOn] at h

private theorem texts_of_ne_token {r : Reader} (h : (r.call k).2 ≠ .token) : (r.call k).1.flatMap Event.texts = [] := by
  by_cases hs : (r.afterCalls k).stage = .finished
  · rw [call_of_finished hs (Nat.le_refl k)]
    rfl
  · rcases advance_cases hs with ⟨e, he⟩ | ⟨-, he⟩ | ⟨t, lexer, opened, entities, events, -, -, he⟩
    · have hevents : (r.call k).1 = (r.afterCalls k).opening := congrArg (·.2.1) he
      rw [hevents, flatMap_texts_opening]
    · have hevents : (r.call k).1 = (r.afterCalls k).opening ++ [.endDocument] := congrArg (·.2.1) he
      rw [hevents, List.flatMap_append, flatMap_texts_opening]
      rfl
    · exact absurd (congrArg (·.2.2) he) h

/-- A text that is handed on for a passage is not longer than the passage and one replacement text for each of its
references. -/
def Bounds (most : Nat) (p : Passage) (text : String) : Prop :=
  utf8Size text.toList ≤ utf8Size p.chars + p.references * most

theorem Bounds.mono {most more : Nat} {p : Passage} {text : String} (h : Bounds most p text) (hle : most ≤ more) :
    Bounds more p text :=
  Nat.le_trans h (Nat.add_le_add_left (Nat.mul_le_mul_left _ hle) _)

private theorem bounds_of_texts {entities : Entities} {context : Context} {ps : List Passage} {texts : List (List Char)}
    (h : List.Forall₂ (fun p text => entities.expand context p = .ok text) ps texts) :
    List.Forall₂ (Bounds entities.longest) ps (texts.map String.ofList) := by
  rw [List.forall₂_map_right_iff]
  refine h.imp fun p text htext => ?_
  rw [Bounds, String.toList_ofList]
  exact Entities.utf8Size_expand_le htext

/-- Each text of a call is for one of its passages. -/
private theorem bounds_of_call (source : List Char) (systemId : Option String) (k : Nat) :
    let r := start source systemId
    List.Forall₂ (Bounds (r.afterCalls k).entities.longest) (r.rawTextsOfCall k)
      ((r.call k).1.flatMap Event.texts) := by
  intro r
  by_cases htoken : (r.call k).2 = .token
  · have hbefore := before_of_call_token htoken
    obtain ⟨t, lexer, opened, entities, events, ht, hl, htake, hevents, -⟩ := exists_of_call_token htoken
    -- The values of a start tag have been read with its attributes.
    have htag : t = .openEnd ∨ t = .emptyEnd → List.Forall₂ (Bounds (r.afterCalls k).entities.longest)
        (ordinaryValues (lastAttributes (r.tokensOfCalls k))) ((r.call k).1.flatMap Event.texts) := by
      intro hend
      have hatEnd : r.AtTagEnd k := ⟨hbefore, t, lexer, hl, hend⟩
      obtain ⟨before, name, span, tag, outer, htokens, -⟩ := hatEnd.exists_tag
      obtain ⟨texts, htexts, hsaid⟩ := (Treats.attributeValues hatEnd htokens).exists_texts htoken
      rw [htokens, lastAttributes_tag, hsaid (by simp)]
      exact bounds_of_texts htexts
    rw [rawTextsOfCall, ht, Option.elim_some]
    cases t with
    | text content =>
      obtain ⟨texts, htexts, hsaid⟩ := (Treats.text hbefore hl).exists_texts htoken
      rw [hsaid (by simp)]
      exact bounds_of_texts htexts
    | openEnd => exact htag (.inl rfl)
    | emptyEnd => exact htag (.inr rfl)
    | cdata content =>
      rw [hevents, List.flatMap_append, flatMap_texts_opening]
      cases takes_of_takeToken htake
      refine .cons ?_ .nil
      rw [Bounds, String.toList_ofList]
      exact Nat.le_add_right _ _
    | _ =>
      rw [hevents, List.flatMap_append, flatMap_texts_opening]
      cases takes_of_takeToken htake <;> exact .nil
  · rw [rawTextsOfCall, tokenOfCall_eq_none htoken, texts_of_ne_token htoken]
    exact .nil

/-- Entities keep their meaning from call to call. -/
private theorem longest_afterCalls_le {r : Reader} (hkn : k ≤ n) :
    (r.afterCalls k).entities.longest ≤ (r.afterCalls n).entities.longest := by
  induction n, hkn using Nat.le_induction with
  | base => exact Nat.le_refl _
  | succ n _ ih =>
    refine Nat.le_trans ih ?_
    by_cases htoken : (r.call n).2 = .token
    · obtain ⟨t, lexer, opened, entities, events, -, -, htake, -, hnext⟩ := exists_of_call_token htoken
      rw [hnext]
      cases takes_of_takeToken htake with
      | entity name => exact Entities.longest_le_of_append _ _
      | _ => exact Nat.le_refl _
    · rw [(afterCalls_succ_of_ne_token htoken).1]

private theorem bounds_of_calls (source : List Char) (systemId : Option String) (n : Nat) :
    let r := start source systemId
    List.Forall₂ (Bounds (r.afterCalls n).entities.longest) (r.rawTextsOfCalls n)
      ((r.eventsOfCalls n).flatMap Event.texts) := by
  intro r
  induction n with
  | zero => exact .nil
  | succ n ih =>
    have hle : (r.afterCalls n).entities.longest ≤ (r.afterCalls (n + 1)).entities.longest :=
      longest_afterCalls_le (Nat.le_succ n)
    rw [eventsOfCalls, List.flatMap_append]
    exact List.rel_append (ih.imp fun _ _ h => h.mono hle)
      ((bounds_of_call source systemId n).imp fun _ _ h => h.mono hle)

private theorem sum_le_of_bounds {most : Nat} {ps : List Passage} {texts : List String}
    (h : List.Forall₂ (Bounds most) ps texts) :
    (texts.map fun text => utf8Size text.toList).sum ≤ totalSize ps + totalSize ps * most := by
  induction h with
  | nil => exact Nat.zero_le _
  | @cons p text ps texts hfirst _ ih =>
    have hreferences : p.references * most ≤ utf8Size p.chars * most := Nat.mul_le_mul_right _ (references_le _ _)
    have hsize : totalSize (p :: ps) = utf8Size p.chars + totalSize ps := rfl
    rw [Bounds] at hfirst
    rw [hsize, List.map_cons, List.sum_cons, Nat.add_mul]
    omega

/-- What the names of a table mean. -/
private theorem utf8Size_stored_le {name text : List Char} :
    let r := start source systemId
    (r.afterCalls n).entities.get? name = some text →
      Entities.predefined.get? name = some text ∧ utf8Size text = 1 ∨
      ∃ d, (r.declarationsOfCalls n).find? (·.name = name) = some d ∧ d.value.IsPartOf (.ofSource source) ∧
        utf8Size text ≤ utf8Size d.value.chars := by
  intro r h
  obtain ⟨m, hbefore, hentities, hdeclared⟩ := exists_before_tokens source systemId n
  rw [hentities] at h
  rw [hdeclared]
  rcases (get?_afterCalls hbefore).1 h with hpredefined | ⟨-, d, hd, htext⟩
  · exact .inl ⟨hpredefined, Entities.utf8Size_predefined hpredefined⟩
  · refine .inr ⟨d, hd, ?_, utf8Size_replacementText_le htext⟩
    obtain ⟨k, -, hk⟩ := exists_declarationOfCall_of_mem (List.mem_of_find?_eq_some hd)
    unfold declarationOfCall at hk
    split at hk
    · rename_i declared value htoken
      obtain rfl := Option.some.inj hk
      cases readFrom_of_tokenOfCall htoken with
      | entity _ hvalue => exact hvalue value rfl
    · simp at hk

/-- Nothing that the declarations of a document say makes texts explode. A replacement text is not longer than the value
of the first declaration of its name, or else it is one of the predefined characters. Each text that a call hands on
comes from its own passage of the document, and is not longer than this passage and the longest replacement text for
each of the references in it. However many calls there are, all of their texts together have at most
`size + size * most` bytes, where `most` is not more than `size`, or than 1; and so have the texts of the whole
document. -/
theorem utf8Size_texts_le (source : List Char) (systemId : Option String) :
    let r : Reader := start source systemId
    let size := utf8Size source
    (∀ n, let entities := (r.afterCalls n).entities
      (∀ name text, entities.get? name = some text → Entities.predefined.get? name = some text ∧ utf8Size text = 1 ∨
        ∃ d, (r.declarationsOfCalls n).find? (·.name = name) = some d ∧ d.value.IsPartOf (.ofSource source) ∧
          utf8Size text ≤ utf8Size d.value.chars) ∧
      entities.longest ≤ max 1 size ∧
      (∀ p ∈ r.rawTextsOfCall n, p.IsPartOf (.ofSource source)) ∧
      List.Forall₂ (fun p text => utf8Size text.toList ≤ utf8Size p.chars + p.references * entities.longest)
        (r.rawTextsOfCall n) ((r.call n).1.flatMap Event.texts) ∧
      (((r.eventsOfCalls n).flatMap Event.texts).map fun text => utf8Size text.toList).sum ≤
        size + size * entities.longest) ∧
    ∃ n, r.events = r.eventsOfCalls n := by
  intro r size
  refine ⟨fun n => ⟨fun name text => utf8Size_stored_le, ?_, fun p => isPartOf_of_mem_rawTextsOfCall,
    bounds_of_call source systemId n, ?_⟩, ?_⟩
  · refine Entities.longest_le fun name text htext => ?_
    rcases utf8Size_stored_le htext with ⟨-, hone⟩ | ⟨d, -, hpart, hle⟩
    · rw [hone]
      exact Nat.le_max_left 1 size
    · exact Nat.le_trans hle (Nat.le_trans hpart.utf8Size_le (Nat.le_max_right 1 size))
  · have hraw : totalSize (r.rawTextsOfCalls n) ≤ size := by
      have hfront := totalSize_rawTextsOfCalls_le source systemId n
      exact Nat.le_trans (Nat.le_of_add_right_le hfront) (offset_afterCalls_le source systemId n)
    have htexts := sum_le_of_bounds (bounds_of_calls source systemId n)
    exact Nat.le_trans htexts (Nat.add_le_add hraw (Nat.mul_le_mul_right _ hraw))
  · obtain ⟨i, -, outcome, ho, hstops⟩ := exists_stopsAt source systemId
    exact ⟨i + 1, events_eq hstops ho⟩

/-- Entities that are declared with one another, in a circle and each with several references. -/
example :
    let source := "<!DOCTYPE a [<!ENTITY b '&c;&c;'><!ENTITY c '&b;&#x62;'>]><a d='&b;&b;'>&c;</a>".toList
    (start source none).events.flatMap Event.texts = ["&c;&c;&c;&c;", "&b;b"] := by
  decide +kernel

end Calls

end Reader

end MapMarkup.Xml
