import MapMarkup.Diagnostic.Collector
import MapMarkup.Proofs.Run

/-!
# Using a checker again

What a checker says about a document does not depend on what it was fed before. Three things are to be compared with
those of a new checker: its state, the contents of its sink, and what it asks the CSS parser.

* A parser that is a function of its arguments is made to keep a log of what it is asked (`CssParser.logged`), and a run
  with the log says what a run without it says (`Checker.run_feedAll_logged`).
* A relation between sinks that survives whatever both are given alike (`Sink.Parallel`) survives a run
  (`Sink.Parallel.foldl_deliver`). For a collector the relation is that it goes on where an old one has stopped.

Together they give `Checker.feedAll_startDocument`, for a checker with whatever history.
-/

namespace MapMarkup

/-! ### What a CSS parser is asked -/

/-- What a CSS parser is asked to read. -/
inductive CssRequest where
  | stylesheet (css : String)
  | styleAttribute (css : String) (line : Nat)
deriving DecidableEq, Repr

/-- The parser that answers like `css` and keeps a log of what it is asked. -/
def CssParser.logged (css : CssParser Id) : CssParser (StateM (List CssRequest)) where
  stylesheet text := do
    modify (· ++ [.stylesheet text])
    return css.stylesheet text
  styleAttribute text line := do
    modify (· ++ [.styleAttribute text line])
    return css.styleAttribute text line

namespace Rules.Notice

/-- What a notice asks the CSS parser. -/
def request? : Notice → Option CssRequest
  | violation _ _ => none
  | styleAttribute css locator => some (.styleAttribute css locator.line)
  | stylesheet css _ _ _ => some (.stylesheet css)

variable {σ : Type} [Sink σ]

private theorem run_deliver_logged (css : CssParser Id) (sink : σ) (n : Notice) (log : List CssRequest) :
    (deliver css.logged sink n).run log = ((deliver css sink n).run, log ++ n.request?.toList) := by
  cases n with
  | violation v locator =>
    simp only [request?, Option.toList_none, List.append_nil]
    rfl
  | styleAttribute text locator => rfl
  | stylesheet text origin lineOffset heading => rfl

private theorem run_foldlM_deliver_logged (css : CssParser Id) (sink : σ) (ns : List Notice) (log : List CssRequest) :
    (ns.foldlM (deliver css.logged) sink).run log =
      (ns.foldl (fun sink n => (deliver css sink n).run) sink, log ++ ns.filterMap request?) := by
  induction ns generalizing sink log with
  | nil => simp only [List.foldlM_nil, List.foldl_nil, List.filterMap_nil, List.append_nil]; rfl
  | cons n ns ih =>
    have hlog : ∀ log' : List CssRequest, log' ++ n.request?.toList ++ ns.filterMap request? =
        log' ++ (n :: ns).filterMap request? := by
      intro log'
      cases hn : n.request? <;> simp [hn]
    rw [List.foldlM_cons, StateT.run_bind, run_deliver_logged]
    show (ns.foldlM (deliver css.logged) (deliver css sink n).run).run (log ++ n.request?.toList) = _
    rw [ih, hlog, List.foldl_cons]

end Rules.Notice

/-- A run with the log leads where the notices of the run lead, and the log has what they ask for. -/
theorem Checker.run_feedAll_logged {σ : Type} [Sink σ] (css : CssParser Id) (c : Checker σ) (events : List Event)
    (log : List CssRequest) :
    (c.feedAll css.logged events).run log =
      (⟨c.state.run events,
          (c.state.runNotices events).foldl (fun sink n => (Rules.Notice.deliver css sink n).run) c.sink⟩,
        log ++ (c.state.runNotices events).filterMap Rules.Notice.request?) := by
  rw [feedAll_eq, StateT.run_map, Rules.Notice.run_foldlM_deliver_logged]
  rfl

/-! ### Sinks that are given the same -/

/-- A relation between sinks that survives whatever both are given alike. -/
structure Sink.Parallel {σ τ : Type} [Sink σ] [Sink τ] (R : σ → τ → Prop) : Prop where
  acceptsStartHint {s : σ} {t : τ} : R s t → Sink.acceptsStartHint s = Sink.acceptsStartHint t
  error {s : σ} {t : τ} (message : String) (locator : Locator) :
    R s t → R (Sink.error s message locator) (Sink.error t message locator)
  warning {s : σ} {t : τ} (message : String) (locator : Locator) :
    R s t → R (Sink.warning s message locator) (Sink.warning t message locator)
  errorWithStart {s : σ} {t : τ} (message : String) (locator : Locator) (start : StartHint) :
    R s t → R (Sink.errorWithStart s message locator start) (Sink.errorWithStart t message locator start)
  useCounter {s : σ} {t : τ} (property : String) : R s t → R (Sink.useCounter s property) (Sink.useCounter t property)

namespace Sink.Parallel

open Rules (Notice)

variable {σ τ : Type} [Sink σ] [Sink τ] {R : σ → τ → Prop} {s : σ} {t : τ}

private theorem report (h : Parallel R) (level : Level) (message : String) (locator : Locator) (hR : R s t) :
    R (Sink.report s level message locator) (Sink.report t level message locator) := by
  cases level with
  | error => exact h.error message locator hR
  | warning => exact h.warning message locator hR

private theorem count (h : Parallel R) (property : String) (problems : List CssProblem) (hR : R s t) :
    R (Notice.count s property problems) (Notice.count t property problems) := by
  unfold Notice.count
  split
  · exact hR
  · exact h.useCounter property hR

private theorem deliverAttributeProblems (h : Parallel R) (locator : Locator) (problems : List CssProblem)
    (hR : R s t) :
    R (Notice.deliverAttributeProblems s locator problems) (Notice.deliverAttributeProblems t locator problems) := by
  unfold Notice.deliverAttributeProblems
  apply List.foldl_rel (h.count _ problems hR)
  intro message _ s' t' hR'
  exact h.error _ locator hR'

private theorem deliverElementProblems (h : Parallel R) (origin : Locator) (lineOffset : Nat) (heading : String)
    (problems : List CssProblem) (hR : R s t) :
    R (Notice.deliverElementProblems s origin lineOffset heading problems)
      (Notice.deliverElementProblems t origin lineOffset heading problems) := by
  have hcount := h.count Vocabulary.styleElementErrors problems hR
  unfold Notice.deliverElementProblems
  simp only [h.acceptsStartHint hcount]
  apply List.foldl_rel hcount
  intro p _ s' t' hR'
  split
  · exact h.errorWithStart p.message p.locator p.start hR'
  · exact h.error p.message p.locator hR'

theorem deliver (h : Parallel R) (css : CssParser Id) (n : Notice) (hR : R s t) :
    R (Notice.deliver css s n).run (Notice.deliver css t n).run := by
  cases n with
  | violation v locator => exact h.report v.level v.message locator hR
  | styleAttribute text locator => exact h.deliverAttributeProblems locator _ hR
  | stylesheet text origin lineOffset heading => exact h.deliverElementProblems origin lineOffset heading _ hR

theorem foldl_deliver (h : Parallel R) (css : CssParser Id) (ns : List Notice) (hR : R s t) :
    R (ns.foldl (fun sink n => (Notice.deliver css sink n).run) s)
      (ns.foldl (fun sink n => (Notice.deliver css sink n).run) t) := by
  apply List.foldl_rel hR
  intro n _ s' t' hR'
  exact h.deliver css n hR'

end Sink.Parallel

/-! ### Collectors that go on -/

namespace Collector

/-- The collector `c` once it has been given what `d` has been given: the diagnostics of `d` follow, and of its use
counters those that are new. -/
def append (c d : Collector) : Collector where
  diagnostics := c.diagnostics ++ d.diagnostics
  useCounters := c.useCounters ++ d.useCounters.filter (!c.useCounters.contains ·)
  startHints := c.startHints

theorem append_clear (c : Collector) : c.append c.clear = c := by
  simp [append, clear]

private theorem append_push (c d : Collector) (x : Diagnostic) : c.append (d.push x) = (c.append d).push x := by
  simp only [append, push, List.append_assoc]

private theorem append_useCounter (c d : Collector) (property : String) :
    c.append (Sink.useCounter d property) = Sink.useCounter (c.append d) property := by
  -- A counter that is new to `d` is dropped again where `c` has it already.
  by_cases hd : property ∈ d.useCounters
  · simp [append, Sink.useCounter, hd]
  · by_cases hc : property ∈ c.useCounters
    · simp [append, Sink.useCounter, hd, hc]
    · simp [append, Sink.useCounter, hd, hc]

/-- A collector that goes on keeps going on. -/
theorem parallel_append (c : Collector) :
    Sink.Parallel fun s d : Collector => s = c.append d ∧ d.startHints = c.startHints := by
  constructor
  · rintro s d ⟨rfl, hd⟩
    exact hd.symm
  · rintro s d message locator ⟨rfl, hd⟩
    exact ⟨(append_push c d _).symm, hd⟩
  · rintro s d message locator ⟨rfl, hd⟩
    exact ⟨(append_push c d _).symm, hd⟩
  · rintro s d message locator start ⟨rfl, hd⟩
    exact ⟨(append_push c d _).symm, hd⟩
  · rintro s d property ⟨rfl, hd⟩
    refine ⟨(append_useCounter c d property).symm, ?_⟩
    simp only [Sink.useCounter]
    split
    · exact hd
    · exact hd

end Collector

/-! ### A checker that is used again -/

namespace Checker

/-- A new checker that has been told the same about the document, and asks for start hints as the given one does. -/
def unused (c : Checker Collector) : Checker Collector where
  state := { sourceIsCss := c.state.sourceIsCss }
  sink := { startHints := c.sink.startHints }

/-- From the start of a document on a checker goes the same way as a new one, whatever it was fed before: its state,
and so its depth, is the same, its sink goes on with what that of the new one is given, and it asks the CSS parser for
the same. -/
theorem feedAll_startDocument (css : CssParser Id) (c : Checker Collector) (events : List Event)
    (log : List CssRequest) :
    let again := (c.feedAll css.logged (.startDocument :: events)).run log
    let anew := (c.unused.feedAll css.logged (.startDocument :: events)).run []
    again.1.state = anew.1.state ∧ again.1.sink = c.sink.append anew.1.sink ∧ again.2 = log ++ anew.2 := by
  intro again anew
  -- All that the start of a document leaves of the state is what both checkers have in common.
  have hrun : c.unused.state.run (.startDocument :: events) = c.state.run (.startDocument :: events) := rfl
  have hnotices : c.unused.state.runNotices (.startDocument :: events) =
      c.state.runNotices (.startDocument :: events) := rfl
  have hagain : again = _ := run_feedAll_logged css c (.startDocument :: events) log
  have hanew : anew = _ := run_feedAll_logged css c.unused (.startDocument :: events) []
  rw [hrun, hnotices] at hanew
  rw [hagain, hanew]
  obtain ⟨hsink, -⟩ := (Collector.parallel_append c.sink).foldl_deliver css
    (c.state.runNotices (.startDocument :: events)) ⟨c.sink.append_clear.symm, rfl⟩
  exact ⟨rfl, hsink, by rw [List.nil_append]⟩

end Checker

end MapMarkup
