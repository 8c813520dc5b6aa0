import MapMarkup.Proofs.Findings
import MapMarkup.Proofs.StylePlaces

/-!
# What notices stand for

A notice asks the CSS parser for the problems of one stylesheet at most (`Notice.ask`). Once they are known, it stands
for some diagnostics and a use counter at most (`Notice.found`, `Notice.counted?`), whichever sink it is delivered to. A
collector keeps just these, with or without the starts (`Collector.settle_eq`); a sink that can do nothing else is given
them as errors and warnings (`Sink.settle_basic`).
-/

namespace MapMarkup

open Rules (Notice)

namespace Rules.Notice

/-- The problems that a notice asks the CSS parser for. -/
def ask {m : Type → Type} [Monad m] (css : CssParser m) : Notice → m (List CssProblem)
  | violation _ _ => pure []
  | styleAttribute text locator => css.styleAttribute text locator.line
  | stylesheet text _ _ _ => css.stylesheet text

/-- The diagnostics that a notice stands for if the CSS parser finds the problems, with all starts that are known. -/
def found (problems : List CssProblem) : Notice → List Diagnostic
  | violation v locator => [⟨v.level, v.message, locator, none⟩]
  | styleAttribute _ locator =>
    (problems.filterMap CssProblem.message).map fun message => ⟨.error, "CSS: " ++ message, locator, none⟩
  | stylesheet _ origin lineOffset heading =>
    (placeProblems origin lineOffset heading problems).map PlacedProblem.diagnostic

/-- The property whose use a notice counts if the CSS parser finds the problems. -/
def counted? (problems : List CssProblem) : Notice → Option String
  | violation _ _ => none
  | styleAttribute _ _ => if problems = [] then none else some Vocabulary.styleAttributeErrors
  | stylesheet _ _ _ _ => if problems = [] then none else some Vocabulary.styleElementErrors

/-- Delivers a notice to a sink if the CSS parser finds the problems. -/
def settle {σ : Type} [Sink σ] (sink : σ) (problems : List CssProblem) : Notice → σ
  | violation v locator => Sink.report sink v.level v.message locator
  | styleAttribute _ locator => deliverAttributeProblems sink locator problems
  | stylesheet _ origin lineOffset heading => deliverElementProblems sink origin lineOffset heading problems

theorem deliver_eq_settle {σ : Type} [Sink σ] {m : Type → Type} [Monad m] [LawfulMonad m] (css : CssParser m)
    (sink : σ) (n : Notice) : deliver css sink n = (fun problems => n.settle sink problems) <$> n.ask css := by
  cases n with
  | violation v locator => rw [ask, map_pure]; rfl
  | styleAttribute text locator => exact bind_pure_comp _ _
  | stylesheet text origin lineOffset heading => exact bind_pure_comp _ _

end Rules.Notice

/-! ### Collectors -/

/-- The diagnostic without its start. -/
def Diagnostic.unhinted (d : Diagnostic) : Diagnostic :=
  { d with start := none }

namespace Collector

/-- A diagnostic as the collector keeps it, if all starts are known. -/
def shown (c : Collector) (d : Diagnostic) : Diagnostic :=
  if c.startHints then d else d.unhinted

private theorem shown_of_start (c : Collector) {d : Diagnostic} (h : d.start = none) : c.shown d = d := by
  obtain ⟨level, message, locator, start⟩ := d
  obtain rfl : start = none := h
  exact ite_self _

/-- The collector after some uses have been counted. -/
def countAll (c : Collector) (properties : List String) : Collector :=
  properties.foldl Sink.useCounter c

/-- Uses are kept in the order in which they come first. -/
theorem countAll_eq (c : Collector) (properties : List String) :
    c.countAll properties =
      { c with useCounters := c.useCounters ++ (properties.removeAll c.useCounters).eraseDups } := by
  induction properties generalizing c with
  | nil => simp [countAll, List.removeAll]
  | cons p properties ih =>
    show (Sink.useCounter c p).countAll properties = _
    rw [ih]
    by_cases hp : p ∈ c.useCounters
    · simp [Sink.useCounter, List.removeAll, hp]
    · have hfilter : properties.removeAll (c.useCounters ++ [p]) =
          (properties.removeAll c.useCounters).filter fun q => !q == p := by
        simp only [List.removeAll, List.filter_filter]
        refine List.filter_congr fun q _ => ?_
        by_cases hq : q = p
        · simp [hq]
        · simp [hq]
      simp only [Sink.useCounter, List.contains_iff_mem, hp, ↓reduceIte, hfilter]
      simp [List.removeAll, hp, List.eraseDups_cons]

/-- No use is kept twice. -/
theorem nodup_countAll {c : Collector} (h : c.useCounters.Nodup) (properties : List String) :
    (c.countAll properties).useCounters.Nodup := by
  induction properties generalizing c with
  | nil => exact h
  | cons p properties ih =>
    refine @ih (Sink.useCounter c p) ?_
    by_cases hp : p ∈ c.useCounters
    · simpa [Sink.useCounter, hp] using h
    · simpa [Sink.useCounter, hp, List.nodup_append, h] using fun q hq => ne_of_mem_of_not_mem hq hp

private theorem countAll_append (c : Collector) (ps qs : List String) :
    c.countAll (ps ++ qs) = (c.countAll ps).countAll qs :=
  List.foldl_append

private theorem countAll_add (c : Collector) (found : List Diagnostic) (properties : List String) :
    (c.add found).countAll properties = (c.countAll properties).add found := by
  simp only [countAll_eq, add]

@[simp] theorem diagnostics_countAll (c : Collector) (properties : List String) :
    (c.countAll properties).diagnostics = c.diagnostics := by
  rw [countAll_eq]

@[simp] theorem startHints_countAll (c : Collector) (properties : List String) :
    (c.countAll properties).startHints = c.startHints := by
  rw [countAll_eq]

private theorem count_eq (c : Collector) (property : String) (problems : List CssProblem) :
    Notice.count c property problems = c.countAll (if problems = [] then none else some property).toList := by
  unfold Notice.count
  split
  · rfl
  · rfl

private theorem foldl_push {α : Type} (f : α → Diagnostic) (c : Collector) (as : List α) :
    as.foldl (fun c a => c.push (f a)) c = c.add (as.map f) := by
  induction as generalizing c with
  | nil => exact (add_nil c).symm
  | cons a as ih => exact (ih _).trans (add_add c [f a] _)

/-- A collector counts the use that a notice counts, and keeps its diagnostics. -/
theorem settle_eq (c : Collector) (problems : List CssProblem) (n : Notice) :
    n.settle c problems = (c.countAll (n.counted? problems).toList).add ((n.found problems).map c.shown) := by
  cases n with
  | violation v locator =>
    show Sink.report c v.level v.message locator = c.push (c.shown ⟨v.level, v.message, locator, none⟩)
    rw [shown_of_start c rfl]
    unfold Sink.report
    cases v.level with
    | error => rfl
    | warning => rfl
  | styleAttribute text locator =>
    refine (foldl_push _ _ _).trans ?_
    rw [count_eq, Notice.found, List.map_map]
    exact congrArg (add _) (List.map_congr_left fun message _ => (shown_of_start c rfl).symm)
  | stylesheet text origin lineOffset heading =>
    have haccepts : ∀ properties, Sink.acceptsStartHint (c.countAll properties) = c.startHints :=
      startHints_countAll c
    unfold Notice.settle Notice.deliverElementProblems
    rw [count_eq, Notice.found, List.map_map]
    simp only [haccepts]
    cases hhints : c.startHints with
    | true =>
      refine (foldl_push PlacedProblem.diagnostic _ _).trans (congrArg (add _) (List.map_congr_left fun p _ => ?_))
      rw [Function.comp_apply, shown, hhints, if_pos rfl]
    | false =>
      refine (foldl_push (fun p : PlacedProblem => p.diagnostic.unhinted) _ _).trans
        (congrArg (add _) (List.map_congr_left fun p _ => ?_))
      rw [Function.comp_apply, shown, hhints, if_neg Bool.false_ne_true]

/-- A collector counts the uses that notices count, and keeps their diagnostics, if the CSS parser finds the problems
that `answer` has for each. -/
theorem foldl_settle (answer : Notice → List CssProblem) (c : Collector) (ns : List Notice) :
    ns.foldl (fun c n => n.settle c (answer n)) c =
      (c.countAll (ns.filterMap fun n => n.counted? (answer n))).add
        ((ns.flatMap fun n => n.found (answer n)).map c.shown) := by
  induction ns generalizing c with
  | nil => exact (add_nil c).symm
  | cons n ns ih =>
    have hcounted : (n :: ns).filterMap (fun n => n.counted? (answer n)) =
        (n.counted? (answer n)).toList ++ ns.filterMap fun n => n.counted? (answer n) := by
      rw [List.filterMap_cons]
      cases n.counted? (answer n) <;> rfl
    have hshown : ∀ found, ((c.countAll (n.counted? (answer n)).toList).add found).shown = c.shown := by
      intro found
      rw [countAll_eq]
      rfl
    rw [List.foldl_cons, settle_eq, ih, hshown, countAll_add, add_add, ← countAll_append, ← hcounted,
      List.flatMap_cons, List.map_append]

end Collector

/-! ### Sinks that can do nothing else -/

namespace Sink

variable {σ : Type}

/-- A sink that only takes errors and warnings. -/
abbrev basic (error warning : σ → String → Locator → σ) : Sink σ :=
  { error, warning }

/-- A sink that only takes errors and warnings is given the diagnostics that a notice stands for, and nothing else. -/
theorem settle_basic (error warning : σ → String → Locator → σ) (x : σ) (problems : List CssProblem) (n : Notice) :
    let _ := basic error warning
    n.settle x problems = (n.found problems).foldl (fun x d => report x d.level d.message d.locator) x := by
  intro _
  have hcount : ∀ property, Notice.count x property problems = x := fun _ => ite_self x
  cases n with
  | violation v locator => rfl
  | styleAttribute text locator =>
    rw [Notice.settle, Notice.deliverAttributeProblems, hcount, Notice.found, List.foldl_map]
    rfl
  | stylesheet text origin lineOffset heading =>
    rw [Notice.settle, Notice.deliverElementProblems, hcount, Notice.found, List.foldl_map]
    rfl

end Sink

end MapMarkup
