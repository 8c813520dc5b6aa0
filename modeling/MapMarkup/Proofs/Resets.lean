import MapMarkup.Proofs.Reuse
import MapMarkup.Proofs.StartHints
import MapMarkup.Proofs.TemplateScope

/-!
# Resetting a checker

A reset forgets all that is known about a document but the elements that are open. So a checker goes on like a new one
in which the same elements are open, and it says what a new one says, whatever follows, if and only if no element is
open (`Checker.feedAll_reset`). Where one is, `probe` tells the two apart: its last event ends an element in the one
checker and nothing in the other.
-/

namespace MapMarkup

open Event (emptyElement)
open Rules (Frame Notice State)
open Vocabulary (xhtml)

/-! ### Telling open elements -/

namespace Rules.State

/-- A link with a variable that nothing binds. -/
def strayLink : List Event := emptyElement 1 "link" [("tref", "\x7bz\x7d")]

/-- A link with a variable that nothing binds, and the end of an `extent` that has not started behind the reset. -/
def probe : List Event := strayLink ++ [.endElement ⟨2, 10, none, none⟩ xhtml "extent"]

/-- Where no element is open, nothing ends, and nothing is said. -/
theorem runNotices_probe (sourceIsCss : Bool) : ({ sourceIsCss } : State).runNotices probe = [] := by
  cases sourceIsCss <;> decide +kernel

/-- Where an element is open, the variable is said to be unbound at its end. -/
theorem mem_runNotices_probe {s : State} (h : s.depth ≠ 0) (hinputs : s.inputs = {}) :
    .violation (.unboundVariable "z") ⟨1, 40, none, none⟩ ∈ s.runNotices probe := by
  have hdepth : (s.run strayLink).depth = s.depth := by
    have hend := depth_next_endElement
    have hstart := depth_next_startElement
    simp only [strayLink, emptyElement, run_cons, run_nil, hend, hstart, Nat.add_sub_cancel]
  have hknown : (s.run strayLink).inputs = (s.inputs.define []).refer [⟨⟨1, 40, none, none⟩, "z"⟩] := by
    have htemplate : Text.templateVariables "\x7bz\x7d" = ["z"] := by decide +kernel
    show (s.inputs.define []).refer ((Text.templateVariables "\x7bz\x7d").map _) = _
    rw [htemplate]
    rfl
  have hsaid : ⟨⟨1, 40, none, none⟩, "z"⟩ ∈
      unboundVariables ((s.run strayLink).notices (.endElement ⟨2, 10, none, none⟩ xhtml "extent")) := by
    rw [unboundVariables_notices (hdepth ▸ h), hknown, hinputs]
    decide
  obtain ⟨n, hn, hvariable⟩ := List.mem_filterMap.1 hsaid
  have heq : n = .violation (.unboundVariable "z") ⟨1, 40, none, none⟩ := by
    unfold Notice.unboundVariable? at hvariable
    split at hvariable
    · cases hvariable
      rfl
    · cases hvariable
  rw [probe, runNotices_append, runNotices_cons]
  exact List.mem_append_right _ (List.mem_append_left _ (heq ▸ hn))

end Rules.State

/-! ### What a checker says after a reset -/

namespace Checker

/-- A checker with a new sink says what is added to the sink of the one that goes on. -/
private theorem feedAll_clear (css : CssParser Id) (c : Checker Collector) (events : List Event)
    (log : List CssRequest) :
    let whole := (c.feedAll css.logged events).run log
    let added := ((⟨c.state, c.sink.clear⟩ : Checker Collector).feedAll css.logged events).run []
    whole.1.state = added.1.state ∧ whole.1.sink = c.sink.append added.1.sink ∧ whole.2 = log ++ added.2 := by
  intro whole added
  have hwhole : whole = _ := run_feedAll_logged css c events log
  have hadded : added = _ := run_feedAll_logged css ⟨c.state, c.sink.clear⟩ events []
  rw [hwhole, hadded]
  obtain ⟨hsink, -⟩ := (Collector.parallel_append c.sink).foldl_deliver css (c.state.runNotices events)
    ⟨c.sink.append_clear.symm, rfl⟩
  exact ⟨rfl, hsink, by rw [List.nil_append]⟩

/-- What a collector has after a run is what it had, with the diagnostics that the notices of the run stand for. -/
private theorem diagnostics_feedAll_logged (css : CssParser Id) (c : Checker Collector) (events : List Event)
    (log : List CssRequest) :
    ((c.feedAll css.logged events).run log).1.sink.diagnostics =
      c.sink.diagnostics ++ ((c.state.runNotices events).flatMap (Notice.diagnostics css)).map c.sink.shown := by
  rw [run_feedAll_logged, Collector.foldl_deliver, Collector.diagnostics_add, Collector.diagnostics_countAll]

/-- A new checker like `unused` in which the elements with the frames are open. -/
def unusedWithin (c : Checker Collector) (frames : List Frame) : Checker Collector :=
  { c.unused with state.frames := frames }

/-- After a reset a checker goes the same way as a new one in which the same elements are open, whatever it was fed
before: its state is the same, its sink goes on with what that of the new one is given, and it asks the CSS parser for
the same. It says what a new checker without open elements says, whatever follows, exactly if no element is open. -/
theorem feedAll_reset (css : CssParser Id) (c : Checker Collector) :
    let again events log := (c.feedAll css.logged (.reset :: events)).run log
    let anew frames events := ((c.unusedWithin frames).feedAll css.logged events).run []
    (∀ events log, (again events log).1.state = (anew c.state.frames events).1.state ∧
      (again events log).1.sink = c.sink.append (anew c.state.frames events).1.sink ∧
      (again events log).2 = log ++ (anew c.state.frames events).2) ∧
    ((∀ events, (again events []).1.sink.diagnostics =
        c.sink.diagnostics ++ (anew [] events).1.sink.diagnostics) ↔ c.depth = 0) := by
  intro again anew
  have hgoes (events : List Event) (log : List CssRequest) :
      (again events log).1.state = (anew c.state.frames events).1.state ∧
        (again events log).1.sink = c.sink.append (anew c.state.frames events).1.sink ∧
        (again events log).2 = log ++ (anew c.state.frames events).2 :=
    feedAll_clear css ⟨c.state.reset, c.sink⟩ events log
  refine ⟨hgoes, fun hsame => ?_, fun hdepth events => ?_⟩
  · by_contra hdepth
    have hagain := diagnostics_feedAll_logged css c (.reset :: State.probe) []
    have hanew : (anew [] State.probe).1.sink.diagnostics = [] := by
      have hnotices : (c.unusedWithin []).state.runNotices State.probe = [] := State.runNotices_probe _
      rw [diagnostics_feedAll_logged, hnotices]
      rfl
    have hnone := hagain.symm.trans (hsame State.probe)
    rw [hanew, List.append_cancel_left_eq, List.map_eq_nil_iff, List.flatMap_eq_nil_iff] at hnone
    have hsaid := State.mem_runNotices_probe (s := c.state.reset) hdepth rfl
    exact List.cons_ne_nil _ _ (hnone _ hsaid)
  · have hframes : c.state.frames = [] := List.eq_nil_of_length_eq_zero hdepth
    obtain ⟨-, hsink, -⟩ := hgoes events []
    rw [hsink, hframes]
    rfl

theorem feedAll_reset_ne_of_openExtent :
    let css : CssParser Id := CssParser.none
    let c : Checker Collector := (({ sink := {} } : Checker Collector).feedAll css
      [.startElement ⟨1, 9, none, none⟩ xhtml "extent" []]).run
    let events : List Event := [.startElement ⟨2, 40, none, none⟩ xhtml "input" []]
    ((c.feedAll css.logged (.reset :: events)).run []).1.sink.diagnostics ≠
      c.sink.diagnostics ++ ((c.unused.feedAll css.logged events).run []).1.sink.diagnostics := by
  decide +kernel

end Checker

end MapMarkup
