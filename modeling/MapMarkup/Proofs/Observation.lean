import Mathlib.Data.Multiset.Basic
import MapMarkup.Proofs.Delivery
import MapMarkup.Proofs.Reuse

/-!
# What is to be seen of an event

An event that a checker is fed is seen in its state, in what its collector has been given, and in all that comes later
(`Checker.observe`). Of the diagnostics of one event the order is left out here. So two events cannot be told apart if
they move the state to the same place and say the same up to order (`Checker.observe_congr`), as long as they ask the
CSS parser once at most: the order of what it is asked may be seen in what it answers.
-/

namespace MapMarkup

theorem eq_of_perm {α : Type} {xs ys : List α} (h : xs.Perm ys) (hlength : xs.length ≤ 1) : xs = ys := by
  match xs, hlength with
  | [], _ => exact (List.nil_perm.1 h).symm
  | [x], _ => exact List.singleton_perm.1 h

/-! ### One request at most -/

open Rules (Notice State)

/-- What a CSS parser finds when it is asked. -/
def CssParser.answer {m : Type → Type} (css : CssParser m) : CssRequest → m (List CssProblem)
  | .stylesheet text => css.stylesheet text
  | .styleAttribute text line => css.styleAttribute text line

namespace Rules.Notice

section

variable {σ : Type} [Sink σ] {m : Type → Type} [Monad m] {n : Notice} {ns : List Notice}

theorem ask_eq (css : CssParser m) (n : Notice) : n.ask css = n.request?.elim (pure []) css.answer := by
  cases n with
  | violation | styleAttribute | stylesheet => rfl

private theorem settle_of_request?_eq_none (h : n.request? = none) (sink : σ) (problems problems' : List CssProblem) :
    n.settle sink problems = n.settle sink problems' := by
  cases n with
  | violation => rfl
  | styleAttribute | stylesheet => cases h

variable [LawfulMonad m]

/-- If the CSS parser is not asked, it does not matter what it would find. -/
private theorem foldlM_deliver_of_no_request (css : CssParser m) (h : ns.filterMap request? = []) (sink : σ)
    (problems : List CssProblem) :
    ns.foldlM (deliver css) sink = pure (ns.foldl (fun sink n => n.settle sink problems) sink) := by
  induction ns generalizing sink with
  | nil => rfl
  | cons n ns ih =>
    obtain ⟨hn, hns⟩ : n.request? = none ∧ ns.filterMap request? = [] := by
      simpa [List.filterMap_eq_nil_iff] using h
    have hdeliver : deliver css sink n = pure (n.settle sink problems) := by
      rw [deliver_eq_settle, ask_eq, hn, Option.elim_none, map_pure, settle_of_request?_eq_none hn sink problems []]
    rw [List.foldlM_cons, hdeliver, pure_bind, ih hns, List.foldl_cons]

/-- If the CSS parser is asked once at most, all notices may wait for what it finds then. -/
theorem foldlM_deliver_of_request (css : CssParser m) (h : (ns.filterMap request?).length ≤ 1) (sink : σ) :
    ns.foldlM (deliver css) sink =
      (fun problems => ns.foldl (fun sink n => n.settle sink problems) sink) <$>
        (ns.filterMap request?).head?.elim (pure []) css.answer := by
  induction ns generalizing sink with
  | nil => rw [List.filterMap_nil, List.head?_nil, Option.elim_none, map_pure]; rfl
  | cons n ns ih =>
    cases hn : n.request? with
    | none =>
      have hdeliver : deliver css sink n = pure (n.settle sink []) := by
        rw [deliver_eq_settle, ask_eq, hn, Option.elim_none, map_pure]
      rw [List.filterMap_cons_none hn] at h ⊢
      rw [List.foldlM_cons, hdeliver, pure_bind, ih h]
      refine congrArg (· <$> _) (funext fun problems => ?_)
      rw [List.foldl_cons, settle_of_request?_eq_none hn sink problems []]
    | some request =>
      rw [List.filterMap_cons_some hn, List.length_cons] at h
      have hns : ns.filterMap request? = [] := List.eq_nil_of_length_eq_zero (by omega)
      rw [List.filterMap_cons_some hn, List.head?_cons, Option.elim_some, List.foldlM_cons, deliver_eq_settle, ask_eq,
        hn, Option.elim_some, bind_map_left, map_eq_pure_bind]
      refine bind_congr fun problems => ?_
      rw [foldlM_deliver_of_no_request css hns _ problems, List.foldl_cons]

end

end Rules.Notice

namespace Collector

/-- A use is counted only if the CSS parser has been asked. -/
private theorem length_counted?_le (problems : List CssProblem) (ns : List Notice) :
    (ns.filterMap (Notice.counted? problems)).length ≤ (ns.filterMap Notice.request?).length := by
  induction ns with
  | nil => exact le_rfl
  | cons n ns ih =>
    cases n with
    | violation => exact ih
    | styleAttribute | stylesheet =>
      rw [List.filterMap_cons, List.filterMap_cons]
      simp only [Notice.counted?, Notice.request?]
      split
      · exact Nat.le_succ_of_le ih
      · exact Nat.succ_le_succ ih

/-- The collector is given the same up to order if the notices are the same up to order, and counts the same. -/
private theorem foldl_settle_perm {ns ns' : List Notice} (h : ns.Perm ns')
    (hrequests : (ns.filterMap Notice.request?).length ≤ 1)
    (problems : List CssProblem) (c : Collector) :
    ∃ (count : List String) (found found' : List Diagnostic), found.Perm found' ∧
      ns.foldl (fun c n => n.settle c problems) c = (c.countAll count).add found ∧
      ns'.foldl (fun c n => n.settle c problems) c = (c.countAll count).add found' := by
  have hcounted : ns.filterMap (Notice.counted? problems) = ns'.filterMap (Notice.counted? problems) :=
    eq_of_perm (h.filterMap _) ((length_counted?_le problems ns).trans hrequests)
  refine ⟨_, _, _, ?_, foldl_settle (fun _ => problems) c ns, hcounted ▸ foldl_settle (fun _ => problems) c ns'⟩
  exact (h.flatMap_right _).map _

/-! ### What comes afterwards -/

/-- The collector with some more diagnostics in front. -/
def behind (front : List Diagnostic) (c : Collector) : Collector :=
  { c with diagnostics := front ++ c.diagnostics }

private theorem settle_behind (front : List Diagnostic) (c : Collector) (problems : List CssProblem) (n : Notice) :
    n.settle (c.behind front) problems = (n.settle c problems).behind front := by
  simp only [settle_eq, countAll_eq, behind, add, List.append_assoc]
  rfl

/-- A collector is given the same whatever diagnostics it has. -/
private theorem foldlM_deliver_behind {m : Type → Type} [Monad m] [LawfulMonad m] (css : CssParser m)
    (front : List Diagnostic) (c : Collector) (ns : List Notice) :
    ns.foldlM (Notice.deliver css) (c.behind front) = behind front <$> ns.foldlM (Notice.deliver css) c := by
  induction ns generalizing c with
  | nil => exact (map_pure _ _).symm
  | cons n ns ih =>
    rw [List.foldlM_cons, List.foldlM_cons, map_bind, Notice.deliver_eq_settle, Notice.deliver_eq_settle,
      bind_map_left, bind_map_left]
    refine bind_congr fun problems => ?_
    rw [settle_behind, ih]

end Collector

/-! ### Watching a checker -/

/-- What is to be seen of a checker that is fed an event and others later: the state, the new diagnostics up to order
and the use counters after the event, and the state, the further diagnostics and the use counters after the others. -/
structure Observation where
  state : State
  found : Multiset Diagnostic
  useCounters : List String
  laterState : State
  laterFound : List Diagnostic
  laterUseCounters : List String

namespace Checker

variable {m : Type → Type} [Monad m]

/-- Feeds a checker an event and others later, and watches it. -/
def observe (css : CssParser m) (c : Checker Collector) (e : Event) (later : List Event) : m Observation := do
  let d ← c.feed css e
  let d' ← d.feedAll css later
  return {
    state := d.state
    found := d.sink.diagnostics.drop c.sink.diagnostics.length
    useCounters := d.sink.useCounters
    laterState := d'.state
    laterFound := d'.sink.diagnostics.drop d.sink.diagnostics.length
    laterUseCounters := d'.sink.useCounters }

variable [LawfulMonad m]

/-- What the event leaves in the collector decides all that is to be seen. -/
theorem observe_eq (css : CssParser m) (c : Checker Collector) (e : Event) (later : List Event) :
    c.observe css e later =
      (c.state.notices e).foldlM (Notice.deliver css) c.sink >>= fun sink =>
        (fun laterSink => {
            state := c.state.next e
            found := sink.diagnostics.drop c.sink.diagnostics.length
            useCounters := sink.useCounters
            laterState := (c.state.next e).run later
            laterFound := laterSink.diagnostics
            laterUseCounters := laterSink.useCounters }) <$>
          ((c.state.next e).runNotices later).foldlM (Notice.deliver css) { sink with diagnostics := [] } := by
  have hbehind : ∀ sink : Collector, sink = Collector.behind sink.diagnostics { sink with diagnostics := [] } := by
    intro sink
    rw [Collector.behind, List.append_nil]
  have hlater : ∀ (sink : Collector) (ns : List Notice), ns.foldlM (Notice.deliver css) sink =
      Collector.behind sink.diagnostics <$> ns.foldlM (Notice.deliver css) { sink with diagnostics := [] } := by
    intro sink ns
    rw [← Collector.foldlM_deliver_behind, ← hbehind]
  simp only [observe, feed, feedAll_eq, bind_assoc, pure_bind]
  refine bind_congr fun sink => ?_
  simp only [hlater sink, bind_pure_comp, Functor.map_map, Collector.behind, List.drop_left]

/-- Two events cannot be told apart if they have the same effect on the state and the same notices up to order, with one
request to the CSS parser at most. -/
theorem observe_congr (css : CssParser m) (c : Checker Collector) {e e' : Event} (later : List Event)
    (hnext : c.state.next e = c.state.next e') (hnotices : (c.state.notices e).Perm (c.state.notices e'))
    (hrequests : ((c.state.notices e).filterMap Notice.request?).length ≤ 1) :
    c.observe css e later = c.observe css e' later := by
  have hsame : (c.state.notices e).filterMap Notice.request? = (c.state.notices e').filterMap Notice.request? :=
    eq_of_perm (hnotices.filterMap _) hrequests
  rw [observe_eq, observe_eq, Notice.foldlM_deliver_of_request css hrequests,
    Notice.foldlM_deliver_of_request css (hsame ▸ hrequests), hsame, hnext, bind_map_left, bind_map_left]
  refine bind_congr fun problems => ?_
  obtain ⟨count, found, found', hfound, hsink, hsink'⟩ := Collector.foldl_settle_perm hnotices hrequests problems c.sink
  have hdrop : ∀ found, ((c.sink.countAll count).add found).diagnostics.drop c.sink.diagnostics.length = found := by
    intro found
    rw [Collector.diagnostics_add, Collector.diagnostics_countAll, List.drop_left]
  simp only [hsink, hsink', hdrop, Multiset.coe_eq_coe.2 hfound]
  rfl

end Checker

end MapMarkup
