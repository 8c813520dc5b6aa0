import MapMarkup.Proofs.Expansion

/-!
# Replacing the references of a text

Expanding a text and reading the value of an entity go the same way: literal runs and references to entities are
replaced by what the purpose asks for, characters are put in for the references to them, and the first reference that
cannot be replaced is the error. A `Substitution` is such a purpose. Texts can be cut in front of an ampersand that
opens a reference, and what is in front of the cut and what is behind it treated one after the other
(`Substitution.apply_append`). So where an ampersand has no semicolon behind it, a text is either in error, or ends in
this ampersand and is treated as if it were not there (`Substitution.apply_of_unclosed`).
-/

namespace MapMarkup.Xml

section Sequence

variable {ε : Type}

/-- Two texts one behind the other, if both are there. -/
def followedBy (x y : Except ε (List Char)) : Except ε (List Char) := do
  return (← x) ++ (← y)

@[simp] theorem ok_followedBy_ok (cs ds : List Char) : followedBy (.ok cs : Except ε _) (.ok ds) = .ok (cs ++ ds) := rfl

@[simp] theorem error_followedBy (e : ε) (y : Except ε (List Char)) : followedBy (.error e) y = .error e := rfl

@[simp] theorem ok_followedBy_error (cs : List Char) (e : ε) : followedBy (.ok cs) (.error e) = .error e := rfl

private theorem followedBy_nil (x : Except ε (List Char)) : followedBy x (.ok []) = x := by
  cases x with
  | error e => rfl
  | ok cs => rw [ok_followedBy_ok, List.append_nil]

private theorem nil_followedBy (y : Except ε (List Char)) : followedBy (.ok []) y = y := by
  cases y <;> rfl

private theorem followedBy_assoc (x y z : Except ε (List Char)) :
    followedBy (followedBy x y) z = followedBy x (followedBy y z) := by
  cases x with
  | error e => rfl
  | ok cs => cases y with
    | error e => rfl
    | ok ds => cases z with
      | error e => rfl
      | ok es => simp

theorem followedBy_eq_ok_iff {x y : Except ε (List Char)} {cs : List Char} :
    followedBy x y = .ok cs ↔ ∃ a b, x = .ok a ∧ y = .ok b ∧ cs = a ++ b := by
  cases x <;> cases y <;> simp [eq_comm]

private theorem followedBy_eq_error_iff {x y : Except ε (List Char)} {e : ε} :
    followedBy x y = .error e ↔ x = .error e ∨ (∃ a, x = .ok a) ∧ y = .error e := by
  cases x <;> cases y <;> simp

theorem mapError_followedBy {δ : Type} (k : ε → δ) (x y : Except ε (List Char)) :
    (followedBy x y).mapError k = followedBy (x.mapError k) (y.mapError k) := by
  cases x <;> cases y <;> rfl

end Sequence

/-- Only what starts with a number sign is no reference to an entity. -/
theorem referent_eq_entity_iff {written : List Char} : referent written = .entity ↔ written.head? ≠ some '#' := by
  unfold referent
  split
  · dsimp only
    split <;> simp
  · rename_i hplain
    simp only [ne_eq, true_iff, List.head?_eq_some_iff]
    rintro ⟨number, rfl⟩
    exact hplain number rfl

/-- What literal runs and references to entities are replaced by. -/
structure Substitution where
  run : List Char → List Char
  entity : Passage → Except ReadError (List Char)
  run_nil : run [] = []
  eq_of_entity : ∀ name e, entity name = .error e → e = .undefinedEntity name

namespace Substitution

/-- The purpose of expanding a text. -/
def expansion (entities : Entities) (context : Context) : Substitution where
  run cs := if context = .attributeValue then spaceOut cs else cs
  entity name :=
    match entities.get? name.chars with
    | some text => .ok text
    | none => .error (.undefinedEntity name)
  run_nil := by cases context <;> rfl
  eq_of_entity name e h := by
    split at h
    · simp at h
    · exact (Except.error.inj h).symm

/-- The purpose of reading the value of an entity. -/
def replacement : Substitution where
  run cs := cs
  entity name := .ok ('&' :: name.chars ++ [';'])
  run_nil := rfl
  eq_of_entity name e h := by simp at h

/-- What a piece is replaced by. -/
def piece (s : Substitution) : Piece → Except ReadError (List Char)
  | .literal cs => .ok (s.run cs)
  | .unclosed ampersand => .error (.brokenReference ampersand)
  | .reference written =>
    match referent written.chars with
    | .character c => .ok [c]
    | .invalid => .error (.brokenReference written.span)
    | .entity => s.entity written

/-- What a passage is replaced by. -/
def apply (s : Substitution) (p : Passage) : Except ReadError (List Char) := do
  return (← (pieces p.offset p.chars).mapM s.piece).flatten

theorem expand_eq_apply (entities : Entities) (context : Context) (p : Passage) :
    entities.expand context p = (expansion entities context).apply p := by
  have hpiece : entities.expandPiece context = (expansion entities context).piece := by
    funext piece
    cases piece <;> rfl
  unfold Entities.expand apply
  rw [hpiece]

theorem replacementText_eq_apply (value : Passage) : replacementText value = replacement.apply value := by
  have hpiece : replacementPiece = replacement.piece := by
    funext piece
    cases piece <;> rfl
  unfold replacementText apply
  rw [hpiece]

/-! ### Runs and references -/

variable (s : Substitution) {o : Nat} {run written left right cs : List Char}

private theorem flatten_mapM_cons (p : Piece) (ps : List Piece) :
    (do return (← (p :: ps).mapM s.piece).flatten) =
      followedBy (s.piece p) (do return (← ps.mapM s.piece).flatten) := by
  rw [List.mapM_cons]
  cases s.piece p with
  | error e => rfl
  | ok text => cases ps.mapM s.piece <;> rfl

theorem apply_nil (o : Nat) : s.apply ⟨o, []⟩ = .ok [] := by
  unfold apply
  rw [pieces_nil]
  rfl

theorem apply_run (hrun : '&' ∉ run) : s.apply ⟨o, run⟩ = .ok (s.run run) := by
  by_cases hne : run = []
  · rw [hne, apply_nil, s.run_nil]
  · unfold apply
    rw [pieces_of_not_mem o hrun hne, flatten_mapM_cons]
    exact congrArg Except.ok (List.append_nil _)

theorem apply_lastAmpersand (hrun : '&' ∉ run) : s.apply ⟨o, run ++ ['&']⟩ = .ok (s.run run) := by
  unfold apply
  rw [pieces_lastAmpersand o hrun, flatten_mapM_cons]
  exact congrArg Except.ok (List.append_nil _)

theorem apply_unclosed (hrun : '&' ∉ run) (hne : cs ≠ []) (hcs : ';' ∉ cs) :
    s.apply ⟨o, run ++ '&' :: cs⟩ = .error (.brokenReference ⟨o + utf8Size run, o + utf8Size run + 1⟩) := by
  unfold apply
  rw [pieces_unclosed o hrun hne hcs, flatten_mapM_cons, flatten_mapM_cons]
  rfl

theorem apply_reference (hrun : '&' ∉ run) (hwritten : ';' ∉ written) (cs : List Char) :
    s.apply ⟨o, run ++ '&' :: (written ++ ';' :: cs)⟩ =
      followedBy (.ok (s.run run)) (followedBy (s.piece (.reference ⟨o + utf8Size run + 1, written⟩))
        (s.apply ⟨o + utf8Size run + 1 + utf8Size written + 1, cs⟩)) := by
  unfold apply
  rw [pieces_reference o hrun hwritten, flatten_mapM_cons, flatten_mapM_cons]
  rfl

/-! Where the text starts with the ampersand, no run is in front of it. -/

private theorem apply_ampersand (o : Nat) : s.apply ⟨o, ['&']⟩ = .ok [] :=
  (s.apply_lastAmpersand List.not_mem_nil).trans (congrArg Except.ok s.run_nil)

private theorem apply_ampersand_unclosed (o : Nat) (hne : cs ≠ []) (hcs : ';' ∉ cs) :
    s.apply ⟨o, '&' :: cs⟩ = .error (.brokenReference ⟨o, o + 1⟩) :=
  s.apply_unclosed List.not_mem_nil hne hcs

private theorem apply_ampersand_reference (o : Nat) (hwritten : ';' ∉ written) (cs : List Char) :
    s.apply ⟨o, '&' :: (written ++ ';' :: cs)⟩ =
      followedBy (s.piece (.reference ⟨o + 1, written⟩)) (s.apply ⟨o + 1 + utf8Size written + 1, cs⟩) := by
  have hfirst := s.apply_reference (o := o) List.not_mem_nil hwritten cs
  rwa [List.nil_append, s.run_nil, utf8Size_nil, Nat.add_zero, nil_followedBy] at hfirst

/-! ### Cutting texts -/

private theorem apply_run_append (hrun : '&' ∉ run) (cs : List Char) :
    s.apply ⟨o, run ++ '&' :: cs⟩ = followedBy (.ok (s.run run)) (s.apply ⟨o + utf8Size run, '&' :: cs⟩) := by
  by_cases hcs : cs = []
  · rw [hcs, apply_lastAmpersand s hrun, apply_ampersand, followedBy_nil]
  · by_cases hend : ';' ∈ cs
    · obtain ⟨written, rest, rfl, hwritten⟩ := List.eq_append_cons_of_mem hend
      rw [apply_reference s hrun hwritten, apply_ampersand_reference s _ hwritten]
    · rw [apply_unclosed s hrun hcs hend, apply_ampersand_unclosed s _ hcs hend, ok_followedBy_error]

/-- A text in which no reference is open can be treated on its own. -/
theorem apply_append (hleft : Closed left) (o : Nat) (cs : List Char) :
    s.apply ⟨o, left ++ '&' :: cs⟩ =
      followedBy (s.apply ⟨o, left⟩) (s.apply ⟨o + utf8Size left, '&' :: cs⟩) := by
  induction hleft generalizing o with
  | plain hrun => rw [apply_run_append s hrun, apply_run s hrun]
  | @reference run written rest hrun hwritten _ ih =>
    have hplace : o + utf8Size run + 1 + utf8Size written + 1 + utf8Size rest =
        o + utf8Size (run ++ '&' :: (written ++ ';' :: rest)) := by
      have hsize : Char.utf8Size '&' = 1 ∧ Char.utf8Size ';' = 1 := by decide
      simp only [utf8Size_append, utf8Size_cons, hsize]
      omega
    rw [List.append_assoc, List.cons_append, List.append_assoc, List.cons_append, apply_reference s hrun hwritten,
      apply_reference s hrun hwritten, ih, hplace, followedBy_assoc, followedBy_assoc]

/-- A reference is replaced on its own, between what is in front of it and what is behind it. -/
theorem apply_append_reference (hleft : Closed left) (hwritten : ';' ∉ written) (o : Nat) (cs : List Char) :
    s.apply ⟨o, left ++ '&' :: (written ++ ';' :: cs)⟩ =
      followedBy (s.apply ⟨o, left⟩) (followedBy (s.piece (.reference ⟨o + utf8Size left + 1, written⟩))
        (s.apply ⟨o + utf8Size left + 1 + utf8Size written + 1, cs⟩)) := by
  rw [apply_append s hleft, apply_ampersand_reference s _ hwritten]

end Substitution

/-! ### Errors -/

/-- The error is about a reference that stands in the given part of the document. -/
def ReadError.IsAboutReference (part : Span) : ReadError → Prop
  | .brokenReference span => part.low ≤ span.low ∧ span.high ≤ part.high
  | .undefinedEntity name => part.low < name.offset ∧ name.offset + utf8Size name.chars < part.high
  | _ => False

theorem ReadError.IsAboutReference.mono {e : ReadError} {part whole : Span} (h : e.IsAboutReference part)
    (hlow : whole.low ≤ part.low) (hhigh : part.high ≤ whole.high) : e.IsAboutReference whole := by
  cases e with
  | brokenReference span =>
    obtain ⟨h₁, h₂⟩ := h
    exact ⟨Nat.le_trans hlow h₁, Nat.le_trans h₂ hhigh⟩
  | undefinedEntity name =>
    obtain ⟨h₁, h₂⟩ := h
    exact ⟨Nat.lt_of_le_of_lt hlow h₁, Nat.lt_of_lt_of_le h₂ hhigh⟩
  | _ => exact h

/-- A reference that is open stays open: there is an ampersand in front of which none is, without a semicolon behind
it. -/
private theorem exists_closed_of_not_closed {left : List Char} (h : ¬ Closed left) :
    ∃ before after, left = before ++ '&' :: after ∧ Closed before ∧ ';' ∉ after := by
  induction left using induction_pieces with
  | nil => exact absurd (.plain (by simp)) h
  | plain run hrun _ => exact absurd (.plain hrun) h
  | last run hrun => exact ⟨run, [], rfl, .plain hrun, by simp⟩
  | unclosed run cs hrun _ hcs => exact ⟨run, cs, rfl, .plain hrun, hcs⟩
  | reference run written cs hrun hwritten ih =>
    have hrest : ¬ Closed cs := fun hcs => h (.reference hrun hwritten hcs)
    obtain ⟨before, after, rfl, hbefore, hafter⟩ := ih hrest
    exact ⟨run ++ '&' :: (written ++ ';' :: before), after, by simp, .reference hrun hwritten hbefore, hafter⟩

namespace Substitution

variable (s : Substitution) {o : Nat} {left right cs : List Char} {e : ReadError}

private theorem isAboutReference_of_piece {written : List Char} (h : s.piece (.reference ⟨o + 1, written⟩) = .error e) :
    e.IsAboutReference ⟨o, o + 1 + utf8Size written + 1⟩ := by
  simp only [piece] at h
  split at h
  · simp at h
  · obtain rfl := Except.error.inj h
    exact ⟨Nat.le_succ o, Nat.le_succ _⟩
  · obtain rfl := s.eq_of_entity _ _ h
    exact ⟨Nat.lt_succ_self o, Nat.lt_succ_self _⟩

/-- Where a text cannot be replaced, what is in front of the reference at fault can. -/
theorem exists_of_apply_eq_error (h : s.apply ⟨o, cs⟩ = .error e) :
    ∃ left text right, Closed left ∧ s.apply ⟨o, left⟩ = .ok text ∧
      (cs = left ++ '&' :: right ∧ right ≠ [] ∧ ';' ∉ right ∧
          e = .brokenReference ⟨o + utf8Size left, o + utf8Size left + 1⟩ ∨
        ∃ written, cs = left ++ '&' :: (written ++ ';' :: right) ∧ ';' ∉ written ∧
          s.piece (.reference ⟨o + utf8Size left + 1, written⟩) = .error e) := by
  induction cs using induction_pieces generalizing o with
  | nil => simp [apply_nil] at h
  | plain run hrun _ => simp [apply_run s hrun] at h
  | last run hrun => simp [apply_lastAmpersand s hrun] at h
  | unclosed run cs hrun hne hcs =>
    rw [apply_unclosed s hrun hne hcs] at h
    exact ⟨run, _, cs, .plain hrun, apply_run s hrun, .inl ⟨rfl, hne, hcs, (Except.error.inj h).symm⟩⟩
  | reference run written cs hrun hwritten ih =>
    rw [apply_reference s hrun hwritten] at h
    rcases followedBy_eq_error_iff.1 h with h | ⟨-, h⟩
    · simp at h
    · rcases followedBy_eq_error_iff.1 h with hpiece | ⟨⟨inserted, hinserted⟩, hrest⟩
      · exact ⟨run, _, cs, .plain hrun, apply_run s hrun, .inr ⟨written, rfl, hwritten, hpiece⟩⟩
      · obtain ⟨left, text, right, hleft, htext, hfault⟩ := ih hrest
        have hplace : o + utf8Size run + 1 + utf8Size written + 1 + utf8Size left =
            o + utf8Size (run ++ '&' :: (written ++ ';' :: left)) := by
          have hsize : Char.utf8Size '&' = 1 ∧ Char.utf8Size ';' = 1 := by decide
          simp only [utf8Size_append, utf8Size_cons, hsize]
          omega
        rw [hplace] at hfault
        refine ⟨run ++ '&' :: (written ++ ';' :: left), s.run run ++ (inserted ++ text), right,
          .reference hrun hwritten hleft, ?_, ?_⟩
        · rw [apply_reference s hrun hwritten, hinserted, htext]
          rfl
        · rcases hfault with ⟨rfl, hne, hright, he⟩ | ⟨written', rfl, hwritten', he⟩
          · exact .inl ⟨by simp, hne, hright, he⟩
          · exact .inr ⟨written', by simp, hwritten', he⟩

/-- What cannot be replaced is a reference in the text. -/
theorem isAboutReference_of_apply (h : s.apply ⟨o, cs⟩ = .error e) : e.IsAboutReference ⟨o, o + utf8Size cs⟩ := by
  have hsize : Char.utf8Size '&' = 1 ∧ Char.utf8Size ';' = 1 := by decide
  obtain ⟨left, text, right, -, -, ⟨rfl, -, -, rfl⟩ | ⟨written, rfl, -, hpiece⟩⟩ := s.exists_of_apply_eq_error h
  · refine ⟨Nat.le_add_right _ _, ?_⟩
    show o + utf8Size left + 1 ≤ o + utf8Size (left ++ '&' :: right)
    simp only [utf8Size_append, utf8Size_cons, hsize]
    omega
  · refine (s.isAboutReference_of_piece hpiece).mono (Nat.le_add_right _ _) ?_
    show o + utf8Size left + 1 + utf8Size written + 1 ≤ o + utf8Size (left ++ '&' :: (written ++ ';' :: right))
    simp only [utf8Size_append, utf8Size_cons, hsize]
    omega

/-- An ampersand without a semicolon behind it makes the text an error, unless it is the last character and outside all
references: then it is passed over. -/
theorem apply_of_unclosed (hright : ';' ∉ right) (o : Nat) :
    (right = [] ∧ Closed left → s.apply ⟨o, left ++ '&' :: right⟩ = s.apply ⟨o, left⟩) ∧
    (¬ (right = [] ∧ Closed left) → ∃ e, s.apply ⟨o, left ++ '&' :: right⟩ = .error e ∧
      e.IsAboutReference ⟨o, o + utf8Size left + 1⟩) := by
  -- The first such ampersand, if it is not the last character.
  have hopen : ∀ before after : List Char, Closed before → after ≠ [] → ';' ∉ after →
      ∃ e, s.apply ⟨o, before ++ '&' :: after⟩ = .error e ∧ e.IsAboutReference ⟨o, o + utf8Size before + 1⟩ := by
    intro before after hbefore hne hafter
    rw [apply_append s hbefore, apply_ampersand_unclosed s _ hne hafter]
    cases hresult : s.apply ⟨o, before⟩ with
    | error e =>
      refine ⟨e, error_followedBy _ _, (isAboutReference_of_apply s hresult).mono (Nat.le_refl _) ?_⟩
      exact Nat.le_succ _
    | ok text => exact ⟨_, ok_followedBy_error _ _, Nat.le_add_right _ _, Nat.le_refl _⟩
  constructor
  · rintro ⟨rfl, hleft⟩
    rw [apply_append s hleft, apply_ampersand, followedBy_nil]
  · intro hnot
    by_cases hleft : Closed left
    · have hne : right ≠ [] := fun h => hnot ⟨h, hleft⟩
      exact hopen left right hleft hne hright
    · obtain ⟨before, after, rfl, hbefore, hafter⟩ := exists_closed_of_not_closed hleft
      have hrest : ';' ∉ after ++ '&' :: right := by
        simp [hafter, hright]
      obtain ⟨e, he, habout⟩ := hopen before (after ++ '&' :: right) hbefore (by simp) hrest
      refine ⟨e, ?_, habout.mono (Nat.le_refl _) ?_⟩
      · rw [List.append_assoc, List.cons_append]
        exact he
      · show o + utf8Size before + 1 ≤ o + utf8Size (before ++ '&' :: after) + 1
        rw [utf8Size_append]
        omega

end Substitution

end MapMarkup.Xml
