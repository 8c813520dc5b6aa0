import Mathlib.Data.List.TakeWhile
import MapMarkup.Text.Blank

/-!
# What the words of a text are

The words of a text are its maximal runs without white space: each of them has no white space in it and is not empty,
and stands between white space or the ends of the text, and every such run is a word (`mem_words_iff`). Folding the
letters `A` to `Z` neither makes nor removes white space, so that it does not matter whether a text is folded before it
is split or afterwards (`words_toLower`).
-/

namespace MapMarkup.Text

/-- The word is a run of characters of the text that has no white space in it, with white space or an end of the text on
either side. -/
structure IsWord (text word : String) : Prop where
  ne_empty : word ≠ ""
  not_blank : ∀ c ∈ word.toList, isBlank c = false
  maximal : ∃ before after, text.toList = before ++ word.toList ++ after ∧
    (∀ c ∈ before.getLast?, isBlank c) ∧ ∀ c ∈ after.head?, isBlank c

/-! ### Stretches of a split -/

section

variable {p : Char → Bool} {cs w : List Char}

private theorem eq_takeWhile_iff :
    w = cs.takeWhile (!p ·) ↔ (∀ c ∈ w, p c = false) ∧ ∃ after, cs = w ++ after ∧ ∀ c ∈ after.head?, p c := by
  constructor
  · rintro rfl
    refine ⟨fun c hc => by simpa using List.mem_takeWhile_imp hc, cs.dropWhile (!p ·),
      List.takeWhile_append_dropWhile.symm, fun c hc => ?_⟩
    have hhead := List.head?_dropWhile_not (!p ·) cs
    rw [Option.mem_def.1 hc] at hhead
    simpa using hhead
  · rintro ⟨hw, after, rfl, hafter⟩
    rw [List.takeWhile_append_of_pos (by simpa using hw)]
    cases after with
    | nil => rw [List.takeWhile_nil, List.append_nil]
    | cons c after => rw [List.takeWhile_cons_of_neg (by simpa using hafter), List.append_nil]

/-- Each stretch but the first one stands behind a separator. -/
private theorem exists_splitWhere_eq (p : Char → Bool) (cs : List Char) :
    ∃ rest, splitWhere p cs = cs.takeWhile (!p ·) :: rest ∧ ∀ w, w ∈ rest ↔
      (∀ c ∈ w, p c = false) ∧ ∃ before d after, cs = before ++ d :: w ++ after ∧ p d ∧ ∀ c ∈ after.head?, p c := by
  induction cs with
  | nil => exact ⟨[], rfl, by simp⟩
  | cons c cs ih =>
    obtain ⟨rest, hsplit, hrest⟩ := ih
    cases hc : p c with
    | true =>
      refine ⟨cs.takeWhile (!p ·) :: rest, by simp [splitWhere, hc, hsplit], fun w => ?_⟩
      rw [List.mem_cons, eq_takeWhile_iff, hrest, ← and_or_left]
      refine and_congr_right fun _ => ?_
      constructor
      · rintro (⟨after, rfl, hafter⟩ | ⟨before, d, after, rfl, hd, hafter⟩)
        · exact ⟨[], c, after, rfl, hc, hafter⟩
        · exact ⟨c :: before, d, after, rfl, hd, hafter⟩
      · rintro ⟨before, d, after, htext, hd, hafter⟩
        rcases before with _ | ⟨c', before⟩
        · exact .inl ⟨after, (List.cons.inj htext).2, hafter⟩
        · exact .inr ⟨before, d, after, (List.cons.inj htext).2, hd, hafter⟩
    | false =>
      refine ⟨rest, by simp [splitWhere, hc, hsplit], fun w => ?_⟩
      rw [hrest]
      refine and_congr_right fun _ => ?_
      constructor
      · rintro ⟨before, d, after, rfl, hd, hafter⟩
        exact ⟨c :: before, d, after, rfl, hd, hafter⟩
      · rintro ⟨before, d, after, htext, hd, hafter⟩
        rcases before with _ | ⟨c', before⟩
        · rw [← (List.cons.inj htext).1, hc] at hd
          exact absurd hd Bool.false_ne_true
        · exact ⟨before, d, after, (List.cons.inj htext).2, hd, hafter⟩

private theorem mem_splitWhere_iff :
    w ∈ splitWhere p cs ↔ (∀ c ∈ w, p c = false) ∧ ∃ before after, cs = before ++ w ++ after ∧
      (∀ c ∈ before.getLast?, p c) ∧ ∀ c ∈ after.head?, p c := by
  obtain ⟨rest, hsplit, hrest⟩ := exists_splitWhere_eq p cs
  rw [hsplit, List.mem_cons, eq_takeWhile_iff, hrest, ← and_or_left]
  refine and_congr_right fun _ => ?_
  constructor
  · rintro (⟨after, rfl, hafter⟩ | ⟨before, d, after, rfl, hd, hafter⟩)
    · exact ⟨[], after, rfl, by simp, hafter⟩
    · exact ⟨before ++ [d], after, by simp, by simpa using hd, hafter⟩
  · rintro ⟨before, after, htext, hbefore, hafter⟩
    rcases List.eq_nil_or_concat before with rfl | ⟨before, d, rfl⟩
    · exact .inl ⟨after, htext, hafter⟩
    · exact .inr ⟨before, d, after, by simpa using htext, by simpa using hbefore, hafter⟩

private theorem splitWhere_map {f : Char → Char} (h : ∀ c, p (f c) = p c) (cs : List Char) :
    splitWhere p (cs.map f) = (splitWhere p cs).map (List.map f) := by
  induction cs with
  | nil => rfl
  | cons c cs ih =>
    rw [List.map_cons, splitWhere, splitWhere, h, ih]
    cases p c <;> cases splitWhere p cs <;> rfl

end

/-! ### Words -/

theorem mem_words_iff {text word : String} : word ∈ words text ↔ IsWord text word := by
  have hchars : word ∈ words text ↔ word.toList ∈ wordChars text.toList := by
    unfold words
    rw [List.mem_map]
    constructor
    · rintro ⟨w, hw, rfl⟩
      rwa [String.toList_ofList]
    · exact fun hw => ⟨_, hw, String.ofList_toList⟩
  rw [hchars, wordChars, List.mem_filter, mem_splitWhere_iff]
  constructor
  · rintro ⟨⟨hblank, hmaximal⟩, hne⟩
    exact ⟨by simpa using hne, hblank, hmaximal⟩
  · rintro ⟨hne, hblank, hmaximal⟩
    exact ⟨⟨hblank, hmaximal⟩, by simpa using hne⟩

/-- White space comes before all letters. -/
private theorem isBlank_eq_false_of_le {c : Char} (h : 'A'.val ≤ c.val) : isBlank c = false := by
  simp only [isBlank, Bool.or_eq_false_iff, decide_eq_false_iff_not]
  refine ⟨⟨⟨⟨?_, ?_⟩, ?_⟩, ?_⟩, ?_⟩
  all_goals
    rintro rfl
    exact absurd h (by decide)

private theorem isBlank_toLower (c : Char) : isBlank c.toLower = isBlank c := by
  by_cases h : c.val ≥ 'A'.val ∧ c.val ≤ 'Z'.val
  · have hval : c.toLower.val = c.val + ('a'.val - 'A'.val) := congrArg Char.val (dif_pos h)
    have hlower : 'A'.val ≤ c.toLower.val := by
      rw [hval]
      grind
    rw [isBlank_eq_false_of_le h.1, isBlank_eq_false_of_le hlower]
  · have hsame : c.toLower = c := dif_neg h
    rw [hsame]

theorem words_toLower (text : String) : words text.toLower = (words text).map String.toLower := by
  have hlower (s : String) : s.toLower = s.map Char.toLower := rfl
  have hword (w : List Char) : (String.ofList w).toLower = String.ofList (w.map Char.toLower) :=
    String.toList_injective (by simp [hlower])
  have hchars : wordChars (text.toList.map Char.toLower) = (wordChars text.toList).map (List.map Char.toLower) := by
    rw [wordChars, wordChars, splitWhere_map isBlank_toLower, List.filter_map]
    simp [Function.comp_def]
  rw [words, hlower, String.toList_map, hchars, words, List.map_map, List.map_map]
  exact List.map_congr_left fun w _ => (hword w).symm

/-- The texts have the same words up to the case of `A` to `Z`, in whatever order and however often. -/
def SameWords (text text' : String) : Prop :=
  ∀ word : String, (∃ w, IsWord text w ∧ w.toLower = word) ↔ ∃ w, IsWord text' w ∧ w.toLower = word

theorem sameWords_iff {text text' : String} :
    SameWords text text' ↔ ∀ word, word ∈ words text.toLower ↔ word ∈ words text'.toLower := by
  simp only [SameWords, words_toLower, List.mem_map, mem_words_iff]

end MapMarkup.Text
