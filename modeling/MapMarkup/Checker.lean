import MapMarkup.Rules.Transition

/-!
# Checking a document

A checker is the state of the rules together with the sink that takes what they find. Feeding it an event delivers the
notices of the event and moves the state on.
-/

namespace MapMarkup

open Rules (State)

structure Checker (σ : Type) where
  state : State := {}
  sink : σ

namespace Checker

variable {σ : Type} [Sink σ] {m : Type → Type} [Monad m]

/-- The number of open elements. -/
def depth (c : Checker σ) : Nat := c.state.depth

/-- The checker after an event. -/
def feed (css : CssParser m) (c : Checker σ) (e : Event) : m (Checker σ) := do
  let sink ← (c.state.notices e).foldlM (Rules.Notice.deliver css) c.sink
  return { state := c.state.next e, sink }

/-- The checker after several events. -/
def feedAll (css : CssParser m) (c : Checker σ) (events : List Event) : m (Checker σ) :=
  events.foldlM (feed css) c

end Checker

end MapMarkup
