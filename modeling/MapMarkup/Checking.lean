import MapMarkup.Checker
import MapMarkup.Xml.Reader

/-!
# Checking documents as they are read

A document is checked by feeding a checker the events that reading it gives, up to its end or to the error at which
reading stops.
-/

namespace MapMarkup

variable {σ : Type} [Sink σ] {m : Type → Type} [Monad m]

/-- Feeds a checker a document; the error is the one at which reading stops. -/
def Checker.read (css : CssParser m) (c : Checker σ) (source : List Char) (systemId : Option String) :
    m (Checker σ × Option Xml.ReadError) := do
  let reader := Xml.Reader.start source systemId
  return (← c.feedAll css reader.events, reader.error?)

end MapMarkup
