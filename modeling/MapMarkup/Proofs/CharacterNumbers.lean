import Mathlib.Data.Nat.Digits.Defs
import Mathlib.Tactic.IntervalCases
import MapMarkup.Proofs.Substitution

/-!
# Numbers of characters

A reference to a character gives the number of the character in base 16 or in base 10. Which text writes which number
is said here by the digits (`IsDigit`) and their values in positional notation (`Writes`), and reading the number is
shown to agree with it (`number?_eq_some_iff`). So a reference that starts with a number sign stands for the character
whose number it writes, and for nothing if there is none (`referent_numberSign_eq_character_iff`).
-/

namespace MapMarkup.Xml

/-- The digits in the order of their values, with letters in lower case. -/
def lowerDigits : List Char := "0123456789abcdef".toList

/-- The digits in the order of their values, with letters in upper case. -/
def upperDigits : List Char := "0123456789ABCDEF".toList

/-- The character is a digit of the base, and has the value. -/
def IsDigit (base : Nat) (c : Char) (value : Nat) : Prop :=
  value < base ∧ (lowerDigits[value]? = some c ∨ upperDigits[value]? = some c)

/-- The text writes the number in the base: at least one digit, perhaps after a plus sign. -/
def Writes (base : Nat) (cs : List Char) (n : Nat) : Prop :=
  ∃ sign digits values, cs = sign ++ digits ∧ (sign = [] ∨ sign = ['+']) ∧ digits ≠ [] ∧
    List.Forall₂ (IsDigit base) digits values ∧ n = Nat.ofDigits base values.reverse

/-- The text writes the number of the character, in base 16 behind an `x` and in base 10 otherwise. -/
def WritesCharacter (number : List Char) (c : Char) : Prop :=
  (∃ hex, number = 'x' :: hex ∧ Writes 16 hex c.toNat) ∨ Writes 10 number c.toNat

/-! ### Digits -/

private theorem exists_ofNat_of_le {c : Char} (low high : Nat) (h : low ≤ c.toNat ∧ c.toNat ≤ high) :
    ∃ n, low ≤ n ∧ n ≤ high ∧ c = Char.ofNat n :=
  ⟨c.toNat, h.1, h.2, (Char.ofNat_toNat c).symm⟩

private theorem lowerDigits_of_isDigit {c : Char} (h : c.isDigit) : lowerDigits[c.toNat - '0'.toNat]? = some c := by
  simp only [Char.isDigit, Bool.and_eq_true, decide_eq_true_eq] at h
  obtain ⟨n, hlow, hhigh, rfl⟩ := exists_ofNat_of_le 48 57 h
  interval_cases n <;> decide

private theorem lowerDigits_of_lower {c : Char} (h : ('a' ≤ c && c ≤ 'f') = true) :
    lowerDigits[c.toNat - 'a'.toNat + 10]? = some c := by
  have hrange : 'a' ≤ c ∧ c ≤ 'f' := by simpa using h
  obtain ⟨n, hlow, hhigh, rfl⟩ := exists_ofNat_of_le 97 102 hrange
  interval_cases n <;> decide

private theorem upperDigits_of_upper {c : Char} (h : ('A' ≤ c && c ≤ 'F') = true) :
    upperDigits[c.toNat - 'A'.toNat + 10]? = some c := by
  have hrange : 'A' ≤ c ∧ c ≤ 'F' := by simpa using h
  obtain ⟨n, hlow, hhigh, rfl⟩ := exists_ofNat_of_le 65 70 hrange
  interval_cases n <;> decide

/-- The base only says which values count. -/
private theorem digitValue?_eq_some_iff_of_le {base : Nat} (hbase : base ≤ 16) {c : Char} {value : Nat} :
    digitValue? base c = some value ↔ value < base ∧ digitValue? 16 c = some value := by
  unfold digitValue?
  dsimp only
  by_cases hdigit : c.isDigit = true
  · simp only [hdigit, ↓reduceIte, Option.ite_none_right_eq_some, Option.some.injEq]
    omega
  · by_cases hlower : ('a' ≤ c && c ≤ 'f') = true
    · simp only [hdigit, hlower, ↓reduceIte, Bool.false_eq_true, Option.ite_none_right_eq_some, Option.some.injEq]
      omega
    · by_cases hupper : ('A' ≤ c && c ≤ 'F') = true
      · simp only [hdigit, hlower, hupper, ↓reduceIte, Bool.false_eq_true, Option.ite_none_right_eq_some,
          Option.some.injEq]
        omega
      · simp [hdigit, hlower, hupper]

private theorem digitValue?_eq_some_iff {base : Nat} (hbase : base ≤ 16) {c : Char} {value : Nat} :
    digitValue? base c = some value ↔ IsDigit base c value := by
  rw [digitValue?_eq_some_iff_of_le hbase, IsDigit, and_congr_right_iff]
  intro hvalue
  constructor
  · intro h
    unfold digitValue? at h
    dsimp only at h
    by_cases hdigit : c.isDigit = true
    · simp only [hdigit, ↓reduceIte, Option.ite_none_right_eq_some, Option.some.injEq] at h
      exact .inl (h.2 ▸ lowerDigits_of_isDigit hdigit)
    · by_cases hlower : ('a' ≤ c && c ≤ 'f') = true
      · simp only [hdigit, hlower, ↓reduceIte, Bool.false_eq_true, Option.ite_none_right_eq_some,
          Option.some.injEq] at h
        exact .inl (h.2 ▸ lowerDigits_of_lower hlower)
      · by_cases hupper : ('A' ≤ c && c ≤ 'F') = true
        · simp only [hdigit, hlower, hupper, ↓reduceIte, Bool.false_eq_true, Option.ite_none_right_eq_some,
            Option.some.injEq] at h
          exact .inr (h.2 ▸ upperDigits_of_upper hupper)
        · simp [hdigit, hlower, hupper] at h
  · intro h
    have hlt : value < 16 := by omega
    have hread : ∀ digits, digits = lowerDigits ∨ digits = upperDigits →
        ∀ d, digits[value]? = some d → digitValue? 16 d = some value := by
      rintro digits (rfl | rfl) d hd <;> interval_cases value <;> cases hd <;> rfl
    exact h.elim (hread _ (.inl rfl) c) (hread _ (.inr rfl) c)

/-! ### Numbers -/

private theorem mapM_eq_some_iff {α β : Type} {f : α → Option β} {xs : List α} {ys : List β} :
    xs.mapM f = some ys ↔ List.Forall₂ (fun x y => f x = some y) xs ys := by
  induction xs generalizing ys with
  | nil => cases ys <;> simp
  | cons x xs ih =>
    rw [List.mapM_cons]
    constructor
    · intro h
      obtain ⟨y, hy, h⟩ := Option.bind_eq_some_iff.1 h
      obtain ⟨zs, hzs, h⟩ := Option.bind_eq_some_iff.1 h
      obtain rfl := Option.some.inj h
      exact .cons hy (ih.1 hzs)
    · intro h
      obtain ⟨y, zs, hy, hzs, rfl⟩ := List.forall₂_cons_left_iff.1 h
      rw [hy, ih.2 hzs]
      rfl

private theorem foldl_eq_ofDigits (base : Nat) (values : List Nat) :
    values.foldl (fun n d => base * n + d) 0 = Nat.ofDigits base values.reverse := by
  rw [Nat.ofDigits_eq_foldr, List.foldr_reverse]
  congr 1
  funext n d
  rw [Nat.add_comm]
  rfl

theorem number?_eq_some_iff {base : Nat} (hbase : base ≤ 16) {cs : List Char} {n : Nat} :
    number? base cs = some n ↔ Writes base cs n := by
  have hdigits : ∀ digits values, digits.mapM (digitValue? base) = some values ↔
      List.Forall₂ (IsDigit base) digits values := by
    intro digits values
    rw [mapM_eq_some_iff]
    simp only [digitValue?_eq_some_iff hbase]
  have hsign : ∀ value, ¬ IsDigit base '+' value := by
    intro value h
    have := (digitValue?_eq_some_iff hbase).2 h
    simp [digitValue?] at this
  have hwritten : ∀ digits : List Char, (if digits = [] then none
      else (digits.mapM (digitValue? base)).map (·.foldl (fun n d => base * n + d) 0)) = some n ↔
      digits ≠ [] ∧ ∃ values, List.Forall₂ (IsDigit base) digits values ∧ n = Nat.ofDigits base values.reverse := by
    intro digits
    simp only [Option.ite_none_left_eq_some, Option.map_eq_some_iff, hdigits, foldl_eq_ofDigits, eq_comm (a := n)]
  unfold number? Writes
  dsimp only
  split
  · rename_i digits
    rw [hwritten]
    constructor
    · rintro ⟨hne, values, hvalues, hn⟩
      exact ⟨['+'], digits, values, rfl, .inr rfl, hne, hvalues, hn⟩
    · rintro ⟨sign, digits', values, hcs, rfl | rfl, hne, hvalues, hn⟩
      · rw [List.nil_append] at hcs
        subst hcs
        obtain ⟨value, rest, hvalue, -, -⟩ := List.forall₂_cons_left_iff.1 hvalues
        exact absurd hvalue (hsign value)
      · obtain rfl := (List.cons.inj hcs).2
        exact ⟨hne, values, hvalues, hn⟩
  · rename_i hplain
    rw [hwritten]
    constructor
    · rintro ⟨hne, values, hvalues, hn⟩
      exact ⟨[], cs, values, rfl, .inl rfl, hne, hvalues, hn⟩
    · rintro ⟨sign, digits, values, hcs, rfl | rfl, hne, hvalues, hn⟩
      · rw [List.nil_append] at hcs
        subst hcs
        exact ⟨hne, values, hvalues, hn⟩
      · exact absurd hcs (hplain digits)

private theorem charOfNumber?_eq_some_iff {n : Nat} {c : Char} : charOfNumber? n = some c ↔ n = c.toNat := by
  unfold charOfNumber?
  constructor
  · intro h
    by_cases hvalid : n.isValidChar
    · obtain rfl := Option.some.inj ((dif_pos hvalid).symm.trans h)
      rfl
    · exact absurd ((dif_neg hvalid).symm.trans h) (Option.some_ne_none c).symm
  · rintro rfl
    exact (dif_pos c.valid).trans (congrArg some (Char.ext rfl))

/-- No digit of base 10 is an `x`. -/
private theorem not_writes_cons {hex : List Char} {n : Nat} : ¬ Writes 10 ('x' :: hex) n := by
  rintro ⟨sign, digits, values, heq, rfl | rfl, -, hvalues, -⟩
  · rw [List.nil_append] at heq
    subst heq
    obtain ⟨value, rest, hvalue, -, -⟩ := List.forall₂_cons_left_iff.1 hvalues
    have hread := (digitValue?_eq_some_iff (by omega)).2 hvalue
    simp [digitValue?] at hread
  · simp at heq

/-- What starts with a number sign stands for the character whose number it gives, or for nothing. -/
theorem referent_numberSign_eq_character_iff {number : List Char} {c : Char} :
    referent ('#' :: number) = .character c ↔ WritesCharacter number c := by
  have hcode : ∀ base ≤ 16, ∀ cs, (number? base cs).bind charOfNumber? = some c ↔ Writes base cs c.toNat := by
    intro base hbase cs
    simp only [Option.bind_eq_some_iff, charOfNumber?_eq_some_iff, exists_eq_right, number?_eq_some_iff hbase]
  unfold referent
  split
  · rename_i number' hnumber
    obtain rfl := (List.cons.inj hnumber).2
    dsimp only
    generalize hresult : Option.bind _ charOfNumber? = result
    have hwritten : result = some c ↔ WritesCharacter number c := by
      rw [← hresult]
      unfold WritesCharacter
      split
      · rename_i hex
        rw [hcode 16 (by omega)]
        constructor
        · intro h
          exact .inl ⟨hex, rfl, h⟩
        · rintro (⟨hex', heq, h⟩ | h)
          · obtain rfl := (List.cons.inj heq).2
            exact h
          · exact absurd h not_writes_cons
      · rename_i hplain
        rw [hcode 10 (by omega)]
        constructor
        · exact .inr
        · rintro (⟨hex, heq, h⟩ | h)
          · exact absurd heq (hplain hex)
          · exact h
    rw [← hwritten]
    cases result <;> simp
  · rename_i hplain
    exact absurd rfl (hplain number)

end MapMarkup.Xml
