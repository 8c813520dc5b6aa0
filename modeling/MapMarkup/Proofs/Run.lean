import MapMarkup.Checker

/-!
# Runs

A run is several events in a row. The state of the rules goes its own way, whatever the sink and the CSS parser do: a
checker that is fed a run ends in the state `State.run`, and its sink has taken the notices `State.runNotices` one
after the other (`Checker.feedAll_eq`). So whatever is to be said about a run is said about these two functions.
-/

namespace MapMarkup

namespace Rules.State

/-! ### Single events -/

theorem next_start (s : State) (t : StartTag) :
    s.next (.startElement t.locator Vocabulary.xhtml t.name t.attributes) = s.start t := rfl

theorem next_startOther (s : State) (locator : Locator) {uri : String} (name : String) (attributes : Attributes)
    (h : uri ≠ Vocabulary.xhtml) : s.next (.startElement locator uri name attributes) = s.startOther locator := by
  simp only [next, h, ↓reduceIte]

theorem next_end_nil {s : State} (h : s.frames = []) (locator : Locator) (uri name : String) :
    s.next (.endElement locator uri name) = s := by
  simp only [next, h]

theorem next_end_cons {s : State} {f : Frame} {outer : List Frame} (h : s.frames = f :: outer) (locator : Locator)
    (uri name : String) : s.next (.endElement locator uri name) = s.finish f outer uri name := by
  simp only [next, h]

/-! ### Several events -/

/-- The state after several events. -/
def run (s : State) (events : List Event) : State :=
  events.foldl next s

@[simp] theorem run_nil (s : State) : s.run [] = s := rfl

@[simp] theorem run_cons (s : State) (e : Event) (events : List Event) :
    s.run (e :: events) = (s.next e).run events := rfl

theorem run_append (s : State) (es fs : List Event) : s.run (es ++ fs) = (s.run es).run fs :=
  List.foldl_append

/-- What several events make the rules say, in order. -/
def runNotices (s : State) : List Event → List Notice
  | [] => []
  | e :: events => s.notices e ++ (s.next e).runNotices events

@[simp] theorem runNotices_nil (s : State) : s.runNotices [] = [] := rfl

@[simp] theorem runNotices_cons (s : State) (e : Event) (events : List Event) :
    s.runNotices (e :: events) = s.notices e ++ (s.next e).runNotices events := rfl

theorem runNotices_append (s : State) (es fs : List Event) :
    s.runNotices (es ++ fs) = s.runNotices es ++ (s.run es).runNotices fs := by
  induction es generalizing s with
  | nil => rfl
  | cons e es ih => simp only [List.cons_append, runNotices_cons, run_cons, ih, List.append_assoc]

end Rules.State

namespace Checker

open Rules (Notice)

variable {σ : Type} [Sink σ] {m : Type → Type} [Monad m] [LawfulMonad m]

/-- Violations go to the sink one after the other. -/
theorem foldlM_deliver_violations (css : CssParser m) (violations : List (Violation × Locator)) (sink : σ) :
    (violations.map fun v => Notice.violation v.1 v.2).foldlM (Notice.deliver css) sink =
      pure (violations.foldl (fun sink v => Sink.report sink v.1.level v.1.message v.2) sink) := by
  induction violations generalizing sink with
  | nil => rfl
  | cons v violations ih =>
    rw [List.map_cons, List.foldlM_cons, Notice.deliver, pure_bind]
    exact ih _

/-- A checker that is fed a run delivers the notices of the run, and its state goes its own way. -/
theorem feedAll_eq (css : CssParser m) (c : Checker σ) (events : List Event) :
    c.feedAll css events =
      (fun sink => ⟨c.state.run events, sink⟩) <$>
        (c.state.runNotices events).foldlM (Notice.deliver css) c.sink := by
  induction events generalizing c with
  | nil => simp [feedAll]
  | cons e events ih =>
    have ih' : ∀ d : Checker σ, events.foldlM (feed css) d = _ := ih
    simp only [feedAll, List.foldlM_cons, ih', feed, bind_assoc, pure_bind, Rules.State.runNotices_cons,
      List.foldlM_append, map_bind, Rules.State.run_cons]

end Checker

end MapMarkup
