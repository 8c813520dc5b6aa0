import MapMarkup.Checking
import MapMarkup.Diagnostic.Collector
import MapMarkup.Proofs.Run

/-!
# What a collector is left with

If the CSS parser finds nothing, what a collector is given are the violations of a run and nothing else
(`Checker.read_none`). Whatever the parser finds, a collector keeps all that it has (`Checker.extends_feedAll`).
-/

namespace MapMarkup

open Rules (Notice)

/-- The violation of a notice as a diagnostic. -/
def Rules.Notice.diagnostic? : Notice → Option Diagnostic
  | violation v locator => some ⟨v.level, v.message, locator, none⟩
  | styleAttribute .. | stylesheet .. => none

namespace Collector

/-- The collector that keeps some more diagnostics. -/
def add (c : Collector) (found : List Diagnostic) : Collector :=
  { c with diagnostics := c.diagnostics ++ found }

@[simp] theorem add_nil (c : Collector) : c.add [] = c := by
  simp [add]

theorem add_add (c : Collector) (found later : List Diagnostic) : (c.add found).add later = c.add (found ++ later) := by
  simp [add]

@[simp] theorem diagnostics_add (c : Collector) (found : List Diagnostic) :
    (c.add found).diagnostics = c.diagnostics ++ found := rfl

end Collector

/-- A collector keeps a violation, and has no use for a stylesheet in which nothing is wrong. -/
theorem Rules.Notice.deliver_none (c : Collector) (n : Notice) :
    n.deliver (m := Id) CssParser.none c = c.add n.diagnostic?.toList := by
  cases n with
  | violation v locator =>
    show Sink.report c v.level v.message locator = _
    unfold Sink.report
    cases hlevel : v.level with
    | error => simp only [diagnostic?, hlevel]; rfl
    | warning => simp only [diagnostic?, hlevel]; rfl
  | styleAttribute => exact (Collector.add_nil c).symm
  | stylesheet => exact (Collector.add_nil c).symm

private theorem Collector.foldlM_deliver_none (c : Collector) (notices : List Notice) :
    notices.foldlM (m := Id) (Notice.deliver CssParser.none) c = c.add (notices.filterMap Notice.diagnostic?) := by
  induction notices generalizing c with
  | nil => exact (add_nil c).symm
  | cons n notices ih =>
    have hstep : (n :: notices).foldlM (m := Id) (Notice.deliver CssParser.none) c =
        notices.foldlM (m := Id) (Notice.deliver CssParser.none) (c.add n.diagnostic?.toList) :=
      congrArg (notices.foldlM (m := Id) (Notice.deliver CssParser.none)) (Notice.deliver_none c n)
    rw [hstep, ih, add_add, List.filterMap_cons]
    cases n.diagnostic? <;> rfl

/-- Reading a document with a CSS parser that finds nothing. -/
theorem Checker.read_none (c : Checker Collector) (source : List Char) (systemId : Option String) :
    let r := Xml.Reader.start source systemId
    c.read (m := Id) CssParser.none source systemId =
      (⟨c.state.run r.events, c.sink.add ((c.state.runNotices r.events).filterMap Notice.diagnostic?)⟩, r.error?) := by
  intro r
  show ((c.feedAll (m := Id) CssParser.none r.events : Checker Collector), r.error?) = _
  rw [feedAll_eq (m := Id), Collector.foldlM_deliver_none]
  rfl

/-! ### Any CSS parser -/

namespace Collector

/-- The collector has kept what it had, and may have been given more. -/
structure Extends (c c' : Collector) : Prop where
  diagnostics : c.diagnostics <+: c'.diagnostics
  startHints : c'.startHints = c.startHints

private theorem Extends.refl (c : Collector) : c.Extends c :=
  ⟨List.prefix_refl _, rfl⟩

private theorem Extends.trans {c d e : Collector} (h : c.Extends d) (h' : d.Extends e) : c.Extends e :=
  ⟨h.diagnostics.trans h'.diagnostics, h'.startHints.trans h.startHints⟩

private theorem extends_push (c : Collector) (d : Diagnostic) : c.Extends (c.push d) :=
  ⟨List.prefix_append _ _, rfl⟩

private theorem extends_foldl {α : Type} {f : Collector → α → Collector}
    (hf : ∀ (c : Collector) (a : α), c.Extends (f c a)) (c : Collector) (as : List α) : c.Extends (as.foldl f c) := by
  induction as generalizing c with
  | nil => exact .refl c
  | cons a as ih => exact (hf c a).trans (ih (f c a))

theorem diagnostics_count (c : Collector) (property : String) (problems : List CssProblem) :
    (Notice.count c property problems).diagnostics = c.diagnostics ∧
      (Notice.count c property problems).startHints = c.startHints := by
  unfold Notice.count
  split
  · exact ⟨rfl, rfl⟩
  · show (if _ then c else _ : Collector).diagnostics = _ ∧ (if _ then c else _ : Collector).startHints = _
    split <;> exact ⟨rfl, rfl⟩

private theorem extends_count (c : Collector) (property : String) (problems : List CssProblem) :
    c.Extends (Notice.count c property problems) :=
  ⟨(diagnostics_count c property problems).1 ▸ List.prefix_refl _, (diagnostics_count c property problems).2⟩

end Collector

section

variable {S : Type} (css : CssParser (StateM S)) (s : S)

open Collector

private theorem Rules.Notice.extends_deliver (n : Notice) (c : Collector) : c.Extends ((n.deliver css c).run s).1 := by
  cases n with
  | violation v locator =>
    show c.Extends (Sink.report c v.level v.message locator)
    unfold Sink.report
    split <;> exact extends_push c _
  | styleAttribute text locator =>
    refine Extends.trans (extends_count c _ _) (extends_foldl (fun c message => ?_) _ _)
    exact extends_push c _
  | stylesheet text origin lineOffset heading =>
    refine Extends.trans (extends_count c _ _) (extends_foldl (fun c p => ?_) _ _)
    split <;> exact extends_push c _

theorem Collector.extends_foldlM (notices : List Notice) (c : Collector) :
    c.Extends ((notices.foldlM (Notice.deliver css) c).run s).1 := by
  induction notices generalizing c s with
  | nil => exact .refl c
  | cons n notices ih => exact (n.extends_deliver css s c).trans (ih _ _)

theorem Checker.extends_feedAll (c : Checker Collector) (events : List Event) :
    c.sink.Extends ((c.feedAll css events).run s).1.sink := by
  rw [feedAll_eq]
  exact extends_foldlM css s _ _

end

end MapMarkup
