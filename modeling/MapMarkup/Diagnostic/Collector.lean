import MapMarkup.Diagnostic

/-!
# Sinks that keep what they are given

A collector keeps diagnostics in the order in which they come, and use counters without repeats in the order of their
first occurrence. Whether it asks for start hints is settled when it is made; it keeps a hint that it is given in any
case. A log keeps errors and warnings and does nothing beyond what every sink does.
-/

namespace MapMarkup

structure Collector where
  diagnostics : List Diagnostic := []
  useCounters : List String := []
  startHints : Bool := false
deriving DecidableEq, Repr

namespace Collector

/-- The collector that keeps one more diagnostic. -/
def push (c : Collector) (d : Diagnostic) : Collector :=
  { c with diagnostics := c.diagnostics ++ [d] }

instance : Sink Collector where
  error c message locator := c.push ⟨.error, message, locator, none⟩
  warning c message locator := c.push ⟨.warning, message, locator, none⟩
  acceptsStartHint c := c.startHints
  errorWithStart c message locator start := c.push ⟨.error, message, locator, some start⟩
  useCounter c property :=
    if c.useCounters.contains property then c else { c with useCounters := c.useCounters ++ [property] }

/-- The diagnostics of a level. -/
def ofLevel (c : Collector) (level : Level) : List Diagnostic :=
  c.diagnostics.filter (·.level = level)

def errors (c : Collector) : List Diagnostic := c.ofLevel .error

def warnings (c : Collector) : List Diagnostic := c.ofLevel .warning

def hasErrors (c : Collector) : Bool := !c.errors.isEmpty

/-- The collector with nothing in it that asks for start hints as `c` does. -/
def clear (c : Collector) : Collector := { startHints := c.startHints }

end Collector

/-- A sink that keeps errors and warnings. -/
structure Log where
  diagnostics : List Diagnostic := []
deriving DecidableEq, Repr

instance : Sink Log where
  error l message locator := ⟨l.diagnostics ++ [⟨.error, message, locator, none⟩]⟩
  warning l message locator := ⟨l.diagnostics ++ [⟨.warning, message, locator, none⟩]⟩

end MapMarkup
