import MapMarkup.Proofs.Calls

/-!
# Reading a document to its end

Reading a document is calling its reader until it stops. What the calls say therefore holds of the events and of the
error of the whole reading (`Reader.events_eq`, `Reader.error?_eq`): the events are the start of the document, properly
nested content and, unless there is an error, the end of the document (`Reader.exists_body`).
-/

namespace MapMarkup.Xml.Reader

open Event (Content)

variable {r : Reader} {i : Nat} {outcome : Outcome}

private theorem afterCalls_succ (r : Reader) (k : Nat) : r.afterCalls (k + 1) = r.advance.1.afterCalls k := by
  induction k with
  | zero => rfl
  | succ k ih =>
    show (r.afterCalls (k + 1)).advance.1 = _
    rw [ih]
    rfl

private theorem call_succ (r : Reader) (k : Nat) : r.call (k + 1) = r.advance.1.call k := by
  simp only [call, afterCalls_succ]

private theorem StopsAt.tail (h : r.StopsAt (i + 1) outcome) : r.advance.1.StopsAt i outcome where
  before k hk := by
    rw [← call_succ]
    exact h.before (k + 1) (Nat.succ_lt_succ hk)
  here := by
    rw [← call_succ]
    exact h.here
  after k hk := by
    rw [← call_succ]
    exact h.after (k + 1) (Nat.succ_lt_succ hk)

private theorem steps_eq (h : r.StopsAt i outcome) (ho : outcome ≠ .token) :
    r.steps = (List.range (i + 1)).map r.call := by
  induction i generalizing r with
  | zero =>
    have hcall : r.call 0 = (r.advance.2.1, r.advance.2.2) := rfl
    have hne : r.advance.2.2 ≠ .token := by
      rw [← h.here] at ho
      exact ho
    rw [List.range_one, List.map_singleton, steps]
    split
    · rename_i h'
      rw [h'] at hne
      exact absurd rfl hne
    · rename_i h'
      rw [hcall, h']
  | succ i ih =>
    have htoken : r.advance.2.2 = .token := h.before 0 (Nat.succ_pos i)
    rw [List.range_succ_eq_map, List.map_cons, List.map_map, steps]
    split
    · rename_i r' events h'
      have htail := h.tail
      rw [h'] at htail
      rw [ih htail]
      have hcall : r.call 0 = (events, .token) := congrArg Prod.snd h'
      have hcalls : r.call ∘ Nat.succ = r'.call := by
        funext k
        rw [Function.comp_apply, call_succ, h']
      rw [hcall, hcalls]
    · rename_i hother h'
      rw [h'] at htoken
      exact (hother htoken).elim

theorem eventsOfCalls_eq (r : Reader) (n : Nat) : r.eventsOfCalls n = (List.range n).flatMap fun k => (r.call k).1 := by
  induction n with
  | zero => rfl
  | succ n ih => rw [eventsOfCalls, ih, List.range_succ, List.flatMap_append, List.flatMap_singleton]

theorem events_eq (h : r.StopsAt i outcome) (ho : outcome ≠ .token) : r.events = r.eventsOfCalls (i + 1) := by
  rw [events, steps_eq h ho, List.flatMap_map, eventsOfCalls_eq]

/-- The error that an outcome stands for. -/
def Outcome.error? : Outcome → Option ReadError
  | .failed e => some e
  | .token | .finished => none

theorem error?_eq (h : r.StopsAt i outcome) (ho : outcome ≠ .token) : r.error? = Outcome.error? outcome := by
  have hfunction : r.error? = r.steps.findSome? fun step => Outcome.error? step.2 := by
    unfold error?
    congr 1
    funext ⟨events, outcome⟩
    cases outcome <;> rfl
  have hbefore : (List.range i).findSome? ((fun step => Outcome.error? step.2) ∘ r.call) = none := by
    rw [List.findSome?_eq_none_iff]
    intro k hk
    rw [Function.comp_apply, h.before k (List.mem_range.1 hk)]
    rfl
  rw [hfunction, steps_eq h ho, List.findSome?_map, List.range_succ, List.findSome?_append, hbefore, Option.none_or]
  rw [List.findSome?_singleton, Function.comp_apply, h.here]

theorem exists_eventsOfCalls_append (r : Reader) {m n : Nat} (h : m ≤ n) :
    ∃ later, r.eventsOfCalls n = r.eventsOfCalls m ++ later := by
  induction n with
  | zero => exact ⟨[], by rw [Nat.le_zero.1 h, List.append_nil]⟩
  | succ n ih =>
    rcases Nat.lt_or_eq_of_le h with hlt | rfl
    · obtain ⟨later, hlater⟩ := ih (Nat.lt_succ_iff.1 hlt)
      exact ⟨later ++ (r.call n).1, by rw [eventsOfCalls, hlater, List.append_assoc]⟩
    · exact ⟨[], (List.append_nil _).symm⟩

/-- A document leaves the configuration as it is, however far it is read. -/
theorem sourceIsCss_eventsOfCalls (s : Rules.State) (source : List Char) (systemId : Option String) (n : Nat) :
    (s.run ((start source systemId).eventsOfCalls n)).sourceIsCss = s.sourceIsCss := by
  cases n with
  | zero => rfl
  | succ n =>
    obtain ⟨body, opened, hcontent, -, hcourse⟩ := account source systemId n
    have hbody : (s.run (.startDocument :: body)).sourceIsCss = s.sourceIsCss :=
      Rules.State.sourceIsCss_run (s := s.clear) hcontent.nested
    cases hcourse with
    | reading _ hsaid | failed _ _ hsaid => rw [hsaid, hbody]
    | ended _ _ _ hsaid =>
      rw [hsaid, Rules.State.run_append, ← hbody]
      rfl

/-- A document is read to an error, or else to its end with no element open. -/
theorem exists_body (source : List Char) (systemId : Option String) :
    ∃ body opened, Content [] body opened ∧
      ((start source systemId).events = .startDocument :: body ∧ (start source systemId).error?.isSome ∨
        (start source systemId).events = .startDocument :: body ++ [.endDocument] ∧ opened = [] ∧
          (start source systemId).error? = none) := by
  obtain ⟨i, -, outcome, ho, hstops⟩ := exists_stopsAt source systemId
  obtain ⟨body, opened, hcontent, -, hcourse⟩ := account source systemId i
  refine ⟨body, opened, hcontent, ?_⟩
  rw [events_eq hstops ho, error?_eq hstops ho]
  cases hcourse with
  | reading htokens hsaid => exact absurd (hstops.here ▸ htokens i (Nat.lt_succ_self i)) ho
  | failed _ hstop hsaid =>
    obtain ⟨rfl, rfl⟩ := hstops.unique hstop ho (by simp)
    exact .inl ⟨hsaid, rfl⟩
  | ended _ hstop hclosed hsaid =>
    obtain ⟨rfl, rfl⟩ := hstops.unique hstop ho (by simp)
    exact .inr ⟨hsaid, hclosed, rfl⟩

end MapMarkup.Xml.Reader
