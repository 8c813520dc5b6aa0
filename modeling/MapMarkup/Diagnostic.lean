import MapMarkup.Locator

/-!
# Diagnostics and where they go

A diagnostic is an error or a warning at a locator; some know where the range that they are about starts. Diagnostics
are handed to a sink as soon as they are found. A sink has to take errors and warnings; whether it makes use of starts
and of use counters is up to it.
-/

namespace MapMarkup

inductive Level where
  | error
  | warning
deriving DecidableEq, Repr

/-- The start of the range that an error is about. The offset is to be added to the column; it is not 0 where the
range starts in the first line of an embedded stylesheet. -/
structure StartHint where
  line : Nat
  column : Nat
  columnOffset : Nat
deriving DecidableEq, Repr

structure Diagnostic where
  level : Level
  message : String
  locator : Locator
  start : Option StartHint := none
deriving DecidableEq, Repr

/-- What takes diagnostics. -/
class Sink (σ : Type) where
  error : σ → String → Locator → σ
  warning : σ → String → Locator → σ
  /-- Whether the sink makes use of the start of a range. -/
  acceptsStartHint : σ → Bool := fun _ => false
  errorWithStart : σ → String → Locator → StartHint → σ := fun s message locator _ => error s message locator
  /-- Takes note that something happened in the present document, under the URI of a property. -/
  useCounter : σ → String → σ := fun s _ => s

/-- Takes an error or a warning. -/
def Sink.report {σ : Type} [Sink σ] (s : σ) (level : Level) (message : String) (locator : Locator) : σ :=
  match level with
  | .error => Sink.error s message locator
  | .warning => Sink.warning s message locator

end MapMarkup
