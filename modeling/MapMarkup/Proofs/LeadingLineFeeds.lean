import Mathlib.Data.List.Basic
import MapMarkup.Css

/-!
# Stylesheets behind a line feed

The line feed at the start of a stylesheet is left out before the stylesheet is read, and it makes up for one line when
the problems are placed. Every problem whose place is known is then placed one line further down, with the columns of
the stylesheet (`placeProblem_one_of_known`). But the line is added before it is asked whether the place is known at
all, so that problems of unknown place, which are dropped otherwise, are placed in the line of the start tag
(`placeProblem_one_of_unknown`).

Lines are added up as numbers of 32 bits, one sum after the other, and a sum that is not one is refused with all that is
to be placed (`placeProblems?`); nothing is refused if and only if the sums fit (`exists_placeProblems?_iff`). So the
line feed only moves what is placed if and only if all sums fit and no problem of unknown place has a message
(`placeProblems_one_iff`).
-/

namespace MapMarkup

/-- The same problem one line further down; nothing is to be added to its column. -/
def PlacedProblem.lowered (p : PlacedProblem) : PlacedProblem where
  message := p.message
  locator := { p.locator with line := p.locator.line + 1 }
  start := { p.start with line := p.start.line + 1, columnOffset := 0 }

namespace CssProblem

variable {origin : Locator} {heading : String} {p : CssProblem}

/-! ### One problem -/

/-- A problem that is not dropped for its line is placed if it has a message. -/
private theorem placeProblem_of_ne {lineOffset : Nat} (h : p.beginLine + lineOffset ≠ 0) (origin : Locator)
    (heading : String) :
    placeProblem origin lineOffset heading p = p.message.map fun message =>
      { message := heading ++ message
        locator := { origin with line := origin.line + (p.endLine + lineOffset) - 1, column := p.endColumn }
        start := ⟨origin.line + (p.beginLine + lineOffset) - 1, p.beginColumn,
          if p.beginLine = 1 && lineOffset = 0 then origin.column else 0⟩ } :=
  if_neg h

private theorem placeProblem_eq_none_iff (origin : Locator) (lineOffset : Nat) (heading : String) (p : CssProblem) :
    placeProblem origin lineOffset heading p = none ↔ p.beginLine + lineOffset = 0 ∨ p.message = none := by
  by_cases h : p.beginLine + lineOffset = 0
  · exact iff_of_true (if_pos h) (.inl h)
  · rw [placeProblem_of_ne h, Option.map_eq_none_iff, or_iff_right h]

/-- The line of the tag is not 0, so that no subtraction is cut off. -/
theorem placeProblem_one_of_known (horigin : 1 ≤ origin.line) (heading : String) (h : p.beginLine ≠ 0) :
    placeProblem origin 1 heading p = (placeProblem origin 0 heading p).map PlacedProblem.lowered := by
  have hend : origin.line + (p.endLine + 1) - 1 = origin.line + (p.endLine + 0) - 1 + 1 := by omega
  have hbegin : origin.line + (p.beginLine + 1) - 1 = origin.line + (p.beginLine + 0) - 1 + 1 := by omega
  have hplaced : p.beginLine + 0 ≠ 0 := h
  rw [placeProblem_of_ne (Nat.succ_ne_zero _), placeProblem_of_ne hplaced, Option.map_map, hend, hbegin]
  refine congrArg (Option.map · p.message) (funext fun message => ?_)
  simp [PlacedProblem.lowered]

/-- A problem of unknown place is dropped, but not behind a line feed. -/
theorem placeProblem_one_of_unknown (origin : Locator) (heading : String) (h : p.beginLine = 0) :
    placeProblem origin 0 heading p = none ∧
      placeProblem origin 1 heading p = p.message.map fun message =>
        { message := heading ++ message
          locator := { origin with line := origin.line + p.endLine, column := p.endColumn }
          start := ⟨origin.line, p.beginColumn, 0⟩ } := by
  refine ⟨(placeProblem_eq_none_iff origin 0 heading p).2 (.inl h), ?_⟩
  rw [placeProblem_of_ne (Nat.succ_ne_zero _), h]
  rfl

/-! ### All problems -/

/-- No problem is dropped because of the line feed. -/
private theorem length_placeProblems_le (horigin : 1 ≤ origin.line) (heading : String) (problems : List CssProblem) :
    (placeProblems origin 0 heading problems).length ≤ (placeProblems origin 1 heading problems).length := by
  induction problems with
  | nil => exact Nat.le_refl 0
  | cons p problems ih =>
    simp only [placeProblems, List.filterMap_cons] at ih ⊢
    by_cases h : p.beginLine = 0
    · rw [(placeProblem_one_of_unknown origin heading h).1]
      cases placeProblem origin 1 heading p with
      | none => exact ih
      | some placed => exact Nat.le_succ_of_le ih
    · rw [placeProblem_one_of_known horigin heading h]
      cases placeProblem origin 0 heading p with
      | none => exact ih
      | some placed => exact Nat.succ_le_succ ih

private theorem placeProblems_filter_known (horigin : 1 ≤ origin.line) (heading : String) (problems : List CssProblem) :
    placeProblems origin 1 heading (problems.filter (·.beginLine ≠ 0)) =
      (placeProblems origin 0 heading problems).map PlacedProblem.lowered := by
  rw [placeProblems, placeProblems, List.filterMap_filter, List.map_filterMap]
  refine List.filterMap_congr fun p _ => ?_
  by_cases h : p.beginLine = 0
  · rw [(placeProblem_one_of_unknown origin heading h).1, h]
    rfl
  · rw [if_pos (decide_eq_true h), placeProblem_one_of_known horigin heading h]

/-- The line feed only moves problems if all that it adds has nothing to say. -/
private theorem placeProblems_eq_map_iff (horigin : 1 ≤ origin.line) (heading : String) (problems : List CssProblem) :
    placeProblems origin 1 heading problems = (placeProblems origin 0 heading problems).map PlacedProblem.lowered ↔
      ∀ p ∈ problems, p.beginLine = 0 → p.message = none := by
  induction problems with
  | nil => simp [placeProblems]
  | cons p problems ih =>
    rw [List.forall_mem_cons, ← ih]
    have hlength := length_placeProblems_le horigin heading problems
    simp only [placeProblems, List.filterMap_cons] at hlength ⊢
    by_cases h : p.beginLine = 0
    · obtain ⟨hdropped, hplaced⟩ := placeProblem_one_of_unknown origin heading h
      rw [hdropped, hplaced]
      cases hmessage : p.message with
      | none => simp
      | some message =>
        -- What is placed for the problem makes one list longer than the other.
        refine iff_of_false (fun heq => ?_) (by simp [h])
        have hlengths := congrArg List.length heq
        simp only [Option.map_some, List.length_cons, List.length_map] at hlengths
        omega
    · rw [placeProblem_one_of_known horigin heading h]
      cases placeProblem origin 0 heading p with
      | none => simp [h]
      | some placed => simp [h]

/-! ### Sums of 32 bits -/

/-- The place of a problem as it is added up; there is none if a sum does not fit into 32 bits. -/
def placeProblem? (origin : Locator) (lineOffset : Nat) (heading : String) (p : CssProblem) :
    Option (Option PlacedProblem) := do
  let beginLine ← sum32? p.beginLine lineOffset
  if beginLine = 0 then return none
  match p.message with
  | none => return none
  | some message =>
    let endLine ← sum32? p.endLine lineOffset
    let columnOffset := if p.beginLine = 1 && lineOffset = 0 then origin.column else 0
    let line ← sum32? origin.line endLine
    let startLine ← sum32? origin.line beginLine
    return some {
      message := heading ++ message
      locator := { origin with line := line - 1, column := p.endColumn }
      start := ⟨startLine - 1, p.beginColumn, columnOffset⟩ }

/-- The places of problems, one after the other, if there is one for each of them that is not dropped. -/
def placeProblems? (origin : Locator) (lineOffset : Nat) (heading : String) :
    List CssProblem → Option (List PlacedProblem)
  | [] => some []
  | p :: problems => do
    let placed ← placeProblem? origin lineOffset heading p
    return placed.toList ++ (← placeProblems? origin lineOffset heading problems)

/-- The lines of a problem, if it is placed, can be added to that of the start tag. -/
def Fits (origin : Locator) (lineOffset : Nat) (p : CssProblem) : Prop :=
  p.beginLine + lineOffset < UInt32.size ∧ (p.beginLine + lineOffset ≠ 0 → p.message ≠ none →
    origin.line + (p.beginLine + lineOffset) < UInt32.size ∧ origin.line + (p.endLine + lineOffset) < UInt32.size)

instance (origin : Locator) (lineOffset : Nat) (p : CssProblem) : Decidable (p.Fits origin lineOffset) :=
  inferInstanceAs (Decidable (_ ∧ _))

/-- Without the line feed, less is added. -/
private theorem Fits.zero (h : p.Fits origin 1) : p.Fits origin 0 := by
  refine ⟨by have := h.1; omega, fun _ hmessage => ?_⟩
  obtain ⟨hbegin, hend⟩ := h.2 (Nat.succ_ne_zero _) hmessage
  omega

/-- Adding up gives the place of a problem if the sums fit. -/
private theorem placeProblem?_of_fits {lineOffset : Nat} (h : p.Fits origin lineOffset) (heading : String) :
    placeProblem? origin lineOffset heading p = some (placeProblem origin lineOffset heading p) := by
  unfold placeProblem?
  rw [sum32?_of_lt h.1, Option.bind_eq_bind, Option.bind_some]
  by_cases hzero : p.beginLine + lineOffset = 0
  · rw [if_pos hzero, (placeProblem_eq_none_iff origin lineOffset heading p).2 (.inl hzero)]
    rfl
  · rw [if_neg hzero, placeProblem_of_ne hzero]
    cases hmessage : p.message with
    | none => rfl
    | some message =>
      obtain ⟨hbegin, hend⟩ := h.2 hzero (by simp [hmessage])
      have hsum : p.endLine + lineOffset < UInt32.size := by omega
      simp only [sum32?_of_lt hsum, sum32?_of_lt hbegin, sum32?_of_lt hend, Option.bind_some]
      rfl

/-- If a sum does not fit, then adding up comes to it. -/
private theorem placeProblem?_of_not_fits {lineOffset : Nat} (h : ¬ p.Fits origin lineOffset) (heading : String) :
    placeProblem? origin lineOffset heading p = none := by
  unfold placeProblem?
  by_cases hsum : p.beginLine + lineOffset < UInt32.size
  · obtain ⟨hzero, hplaced⟩ := Classical.not_imp.1 fun hlines => h ⟨hsum, hlines⟩
    obtain ⟨hsome, hlines⟩ := Classical.not_imp.1 hplaced
    obtain ⟨message, hmessage⟩ := Option.ne_none_iff_exists'.1 hsome
    rw [sum32?_of_lt hsum, Option.bind_eq_bind, Option.bind_some, if_neg hzero, hmessage]
    by_cases hend : origin.line + (p.endLine + lineOffset) < UInt32.size
    · have hbegin : UInt32.size ≤ origin.line + (p.beginLine + lineOffset) := by omega
      have hsum' : p.endLine + lineOffset < UInt32.size := by omega
      simp only [sum32?_of_lt hsum', sum32?_of_lt hend, sum32?_eq_none_iff.2 hbegin, Option.bind_some, Option.bind_none]
    · by_cases hsum' : p.endLine + lineOffset < UInt32.size
      · simp only [sum32?_of_lt hsum', sum32?_eq_none_iff.2 (Nat.le_of_not_lt hend), Option.bind_some, Option.bind_none]
      · simp only [sum32?_eq_none_iff.2 (Nat.le_of_not_lt hsum'), Option.bind_none]
  · rw [sum32?_eq_none_iff.2 (Nat.le_of_not_lt hsum)]
    rfl

private theorem placeProblems?_of_fits {lineOffset : Nat} (heading : String) {problems : List CssProblem}
    (h : ∀ p ∈ problems, p.Fits origin lineOffset) :
    placeProblems? origin lineOffset heading problems = some (placeProblems origin lineOffset heading problems) := by
  induction problems with
  | nil => rfl
  | cons p problems ih =>
    obtain ⟨hp, hproblems⟩ := List.forall_mem_cons.1 h
    rw [placeProblems?, placeProblem?_of_fits hp, ih hproblems, placeProblems, placeProblems, List.filterMap_cons]
    cases placeProblem origin lineOffset heading p <;> rfl

/-- Nothing is refused if and only if all sums fit. -/
theorem exists_placeProblems?_iff {lineOffset : Nat} (heading : String) {problems : List CssProblem} :
    (∃ placed, placeProblems? origin lineOffset heading problems = some placed) ↔
      ∀ p ∈ problems, p.Fits origin lineOffset := by
  refine ⟨fun h => ?_, fun h => ⟨_, placeProblems?_of_fits heading h⟩⟩
  induction problems with
  | nil => simp
  | cons p problems ih =>
    obtain ⟨placed, hplaced⟩ := h
    rw [placeProblems?] at hplaced
    obtain ⟨first, hfirst, hplaced⟩ := Option.bind_eq_some_iff.1 hplaced
    obtain ⟨others, hothers, -⟩ := Option.bind_eq_some_iff.1 hplaced
    have hp : p.Fits origin lineOffset := by
      by_contra hnot
      rw [placeProblem?_of_not_fits hnot] at hfirst
      simp at hfirst
    exact List.forall_mem_cons.2 ⟨hp, ih ⟨others, hothers⟩⟩

/-- The line feed at the start of a stylesheet moves all problems by a line and does nothing else, if and only if their
lines can be added up and none of unknown place has a message. Where the lines can be added up, the problems of known
place are placed as they are without the line feed, one line further down and with no offset of the column, in the same
order. A problem of unknown place is dropped without the line feed, and placed in the line of the start tag behind it
if it has a message; a problem without a message is dropped in both cases. -/
theorem placeProblems_one_iff {origin : Locator} (horigin : 1 ≤ origin.line) (heading : String)
    (problems : List CssProblem) :
    ((∃ placed, placeProblems? origin 0 heading problems = some placed ∧
        placeProblems? origin 1 heading problems = some (placed.map PlacedProblem.lowered)) ↔
      ∀ p ∈ problems, p.Fits origin 1 ∧ (p.beginLine = 0 → p.message = none)) ∧
    ((∀ p ∈ problems, p.Fits origin 1) →
      ∃ placed, placeProblems? origin 0 heading problems = some placed ∧
        placeProblems? origin 1 heading (problems.filter (·.beginLine ≠ 0)) =
          some (placed.map PlacedProblem.lowered)) ∧
    ∀ p : CssProblem, p.Fits origin 1 →
      (placeProblem? origin 0 heading p = some none ↔ p.beginLine = 0 ∨ p.message = none) ∧
      (placeProblem? origin 1 heading p = some none ↔ p.message = none) ∧
      (p.beginLine = 0 → placeProblem? origin 1 heading p = some (p.message.map fun message =>
        { message := heading ++ message
          locator := { origin with line := origin.line + p.endLine, column := p.endColumn }
          start := ⟨origin.line, p.beginColumn, 0⟩ })) := by
  have hzero : ∀ {ps : List CssProblem}, (∀ p ∈ ps, p.Fits origin 1) →
      placeProblems? origin 0 heading ps = some (placeProblems origin 0 heading ps) := fun h =>
    placeProblems?_of_fits heading fun p hp => (h p hp).zero
  refine ⟨?_, fun h => ⟨_, hzero h, ?_⟩, fun p h => ?_⟩
  · constructor
    · rintro ⟨placed, hplaced, hlowered⟩
      have hfits := (exists_placeProblems?_iff heading).1 ⟨_, hlowered⟩
      obtain rfl := Option.some.inj ((hzero hfits).symm.trans hplaced)
      rw [placeProblems?_of_fits heading hfits, Option.some.injEq, placeProblems_eq_map_iff horigin] at hlowered
      exact fun p hp => ⟨hfits p hp, hlowered p hp⟩
    · intro h
      have hfits : ∀ p ∈ problems, p.Fits origin 1 := fun p hp => (h p hp).1
      have hsilent := (placeProblems_eq_map_iff horigin heading problems).2 fun p hp => (h p hp).2
      exact ⟨_, hzero hfits, by rw [placeProblems?_of_fits heading hfits, hsilent]⟩
  · rw [placeProblems?_of_fits heading fun p hp => h p (List.mem_of_mem_filter hp),
      placeProblems_filter_known horigin]
  · rw [placeProblem?_of_fits h, placeProblem?_of_fits h.zero, Option.some.injEq, Option.some.injEq,
      placeProblem_eq_none_iff, placeProblem_eq_none_iff, or_iff_right (Nat.succ_ne_zero p.beginLine)]
    exact ⟨Iff.rfl, Iff.rfl, fun hunknown => congrArg some (placeProblem_one_of_unknown origin heading hunknown).2⟩

/-- Problems in the first line and behind it, one of unknown place and one of known place that have nothing to say. -/
def someProblems : List CssProblem :=
  [⟨1, 3, 1, 9, .grammar none (some "color") (some "Bad value")⟩, ⟨0, 0, 0, 0, .grammar none none none⟩,
    ⟨2, 1, 4, 1, .grammar (some unrecognized) none none⟩, ⟨3, 1, 3, 2, .other ""⟩]

theorem placeProblems_one_firstLine :
    let origin : Locator := ⟨10, 8, some "a", none⟩
    1 ≤ origin.line ∧ (∀ p ∈ someProblems, p.Fits origin 1) ∧
      placeProblems? origin 1 "CSS: " someProblems =
        some [⟨"CSS: “color”: Bad value.", ⟨11, 9, some "a", none⟩, ⟨11, 3, 0⟩⟩,
          ⟨"CSS: Parse Error.", ⟨14, 1, some "a", none⟩, ⟨12, 1, 0⟩⟩] := by
  intro origin
  have horigin : 1 ≤ origin.line := by decide
  have hfits : ∀ p ∈ someProblems, p.Fits origin 1 := by decide
  have hsilent : ∀ p ∈ someProblems, p.beginLine = 0 → p.message = none := by decide
  obtain ⟨placed, hplaced, hlowered⟩ := (placeProblems_one_iff horigin "CSS: " someProblems).1.2
    fun p hp => ⟨hfits p hp, hsilent p hp⟩
  refine ⟨horigin, hfits, hlowered.trans ?_⟩
  rw [placeProblems?_of_fits "CSS: " fun p hp => (hfits p hp).zero] at hplaced
  obtain rfl := Option.some.inj hplaced
  decide

/-- A problem of unknown place is dropped without the line feed, and placed behind it. -/
theorem placeProblems_one_ne_of_unknown :
    let origin : Locator := ⟨1, 45, none, none⟩
    let problems : List CssProblem := [⟨0, 0, 0, 0, .other "?"⟩]
    1 ≤ origin.line ∧ (∀ p ∈ problems, p.Fits origin 1) ∧
      placeProblems? origin 1 "CSS: " problems ≠
        (placeProblems? origin 0 "CSS: " problems).map (List.map PlacedProblem.lowered) := by
  decide

end CssProblem

end MapMarkup
