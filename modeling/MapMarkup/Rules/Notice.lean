import MapMarkup.Css
import MapMarkup.Violation
import MapMarkup.Vocabulary

/-!
# Notices

What an event makes the rules say: that one of them is violated, or that a stylesheet is to be read. A notice is
delivered to a sink with the help of a CSS parser. The rules never depend on what the parser answers.
-/

namespace MapMarkup.Rules

inductive Notice where
  | violation (violation : Violation) (locator : Locator)
  /-- The value of a `style` attribute is to be read. -/
  | styleAttribute (css : String) (locator : Locator)
  /-- The text of a `style` element is to be read; the other fields are those of `placeProblems`. -/
  | stylesheet (css : String) (origin : Locator) (lineOffset : Nat) (heading : String)
deriving DecidableEq, Repr

namespace Notice

variable {σ : Type} [Sink σ]

/-- Counts the use of a property if there are problems. -/
def count (sink : σ) (property : String) (problems : List CssProblem) : σ :=
  if problems = [] then sink else Sink.useCounter sink property

/-- Hands over the problems of a `style` attribute, all at the place of its tag. -/
def deliverAttributeProblems (sink : σ) (locator : Locator) (problems : List CssProblem) : σ :=
  (problems.filterMap CssProblem.message).foldl (fun s m => Sink.error s ("CSS: " ++ m) locator)
    (count sink Vocabulary.styleAttributeErrors problems)

/-- Hands over the problems of a `style` element, with their starts if the sink makes use of them. -/
def deliverElementProblems (sink : σ) (origin : Locator) (lineOffset : Nat) (heading : String)
    (problems : List CssProblem) : σ :=
  let sink := count sink Vocabulary.styleElementErrors problems
  let hinted := Sink.acceptsStartHint sink
  (placeProblems origin lineOffset heading problems).foldl
    (fun s p => if hinted then Sink.errorWithStart s p.message p.locator p.start else Sink.error s p.message p.locator)
    sink

/-- Delivers a notice to a sink. -/
def deliver {m : Type → Type} [Monad m] (css : CssParser m) (sink : σ) : Notice → m σ
  | .violation v locator => pure (Sink.report sink v.level v.message locator)
  | .styleAttribute text locator => do
    return deliverAttributeProblems sink locator (← css.styleAttribute text locator.line)
  | .stylesheet text origin lineOffset heading => do
    return deliverElementProblems sink origin lineOffset heading (← css.stylesheet text)

end Notice

end MapMarkup.Rules
