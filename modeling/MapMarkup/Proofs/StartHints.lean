import MapMarkup.Proofs.Delivery
import MapMarkup.Proofs.StartNotices

/-!
# What start hints change

With a CSS parser that is a function of its arguments, a run stands for the same diagnostics and the same use counters
whatever the sink can do. So three checkers that only differ in what their sinks can do say the same, and hints are all
that one of them says beyond (`Checker.feedAll_capabilities`): they come with the problems of `style` elements, which
are read at the end of the element and nowhere else (`State.eq_endElement_of_isStylesheet`).
-/

namespace MapMarkup

open Rules (Notice State)
open Vocabulary (xhtml)

/-! ### With a CSS parser that is a function -/

namespace Rules.Notice

variable (css : CssParser Id)

/-- The diagnostics that a notice stands for, with all starts that are known. -/
def diagnostics (n : Notice) : List Diagnostic :=
  n.found (n.ask css).run

/-- The property whose use a notice counts. -/
def counter? (n : Notice) : Option String :=
  n.counted? (n.ask css).run

theorem run_deliver {σ : Type} [Sink σ] (sink : σ) (n : Notice) :
    (deliver css sink n).run = n.settle sink (n.ask css).run := by
  rw [deliver_eq_settle, Id.run_map]

/-- Whether the text of a `style` element is to be read. -/
def isStylesheet : Notice → Bool
  | stylesheet .. => true
  | violation .. | styleAttribute .. => false

theorem isSome_start_of_mem_diagnostics {n : Notice} {d : Diagnostic} (h : d ∈ n.diagnostics css) :
    d.start.isSome = n.isStylesheet := by
  cases n with
  | violation v locator =>
    obtain rfl := List.mem_singleton.1 h
    rfl
  | styleAttribute text locator =>
    obtain ⟨message, -, rfl⟩ := List.mem_map.1 h
    rfl
  | stylesheet text origin lineOffset heading =>
    obtain ⟨p, -, rfl⟩ := List.mem_map.1 h
    rfl

theorem level_of_mem_diagnostics_stylesheet {n : Notice} {d : Diagnostic} (hn : n.isStylesheet)
    (h : d ∈ n.diagnostics css) : d.level = .error := by
  cases n with
  | stylesheet text origin lineOffset heading =>
    obtain ⟨p, -, rfl⟩ := List.mem_map.1 h
    rfl
  | violation | styleAttribute => exact absurd hn Bool.false_ne_true

end Rules.Notice

/-- A collector counts the uses that notices count, and keeps their diagnostics. -/
theorem Collector.foldl_deliver (css : CssParser Id) (c : Collector) (ns : List Notice) :
    ns.foldl (fun c n => (Notice.deliver css c n).run) c =
      (c.countAll (ns.filterMap (Notice.counter? css))).add ((ns.flatMap (Notice.diagnostics css)).map c.shown) := by
  simp only [Notice.run_deliver]
  exact foldl_settle (fun n => (n.ask css).run) c ns

/-- A sink that only takes errors and warnings is given the diagnostics of the notices, and nothing else. -/
private theorem Sink.foldl_deliver_basic {σ : Type} (error warning : σ → String → Locator → σ) (css : CssParser Id)
    (x : σ)
    (ns : List Notice) :
    let _ := basic error warning
    ns.foldl (fun x n => (Notice.deliver css x n).run) x =
      (ns.flatMap (Notice.diagnostics css)).foldl (fun x d => report x d.level d.message d.locator) x := by
  intro _
  induction ns generalizing x with
  | nil => rfl
  | cons n ns ih =>
    rw [List.foldl_cons, ih, List.flatMap_cons, List.foldl_append, Notice.run_deliver, settle_basic]
    rfl

/-! ### Where stylesheets are read -/

namespace Rules.State

variable {s : State} {n : Notice}

private theorem isStylesheet_of_mem_startNotices {t : StartTag} (h : n ∈ s.startNotices t) :
    n.isStylesheet = false := by
  simp only [startNotices_eq, List.mem_append, List.mem_map, StartTag.mem_noticeIf] at h
  rcases h with (⟨a, -, rfl⟩ | ⟨-, rfl⟩) | h
  · rfl
  · rfl
  · cases maySay_of_mem_remarks h <;> rfl

private theorem isStylesheet_of_mem_selectNotices {f : Frame} {locator : Locator} (h : n ∈ selectNotices f locator) :
    n.isStylesheet = false := by
  unfold selectNotices at h
  grind [Notice.isStylesheet]

private theorem isStylesheet_of_mem_extentNotices {f : Frame} {locator : Locator} (h : n ∈ extentNotices s f locator) :
    n.isStylesheet = false := by
  unfold extentNotices at h
  grind [Notice.isStylesheet]

private theorem isStylesheet_of_mem_documentNotices (h : n ∈ s.documentNotices) : n.isStylesheet = false := by
  unfold documentNotices at h
  grind [Notice.isStylesheet]

/-- The text of a `style` element is read at its end, and only there. -/
theorem eq_endElement_of_isStylesheet {e : Event} (h : n ∈ s.notices e) (hn : n.isStylesheet) :
    ∃ locator, e = .endElement locator xhtml "style" := by
  cases e with
  | startDocument | reset | characters | sourceIsCss => simp [notices] at h
  | endDocument => exact absurd hn (by simp [isStylesheet_of_mem_documentNotices h])
  | startElement locator uri name attributes =>
    simp only [notices] at h
    split at h
    · exact absurd hn (by simp [isStylesheet_of_mem_startNotices h])
    · simp at h
  | endElement locator uri name =>
    simp only [notices] at h
    split at h
    · simp at h
    rcases List.mem_append.1 h with h | h
    · split at h
      · rename_i huri
        unfold elementNotices at h
        split at h
        · exact absurd hn (by simp [isStylesheet_of_mem_selectNotices h])
        split at h
        · rename_i hname
          exact ⟨locator, by rw [huri, hname]⟩
        split at h
        · exact absurd hn (by simp [isStylesheet_of_mem_extentNotices h])
        · simp at h
      · simp at h
    · obtain ⟨place, -, rfl⟩ := List.mem_map.1 h
      exact absurd hn Bool.false_ne_true

/-- All else that is said at the end of a `style` element is a warning. -/
theorem cases_of_mem_notices_endStyle {locator : Locator} (h : n ∈ s.notices (.endElement locator xhtml "style")) :
    n.isStylesheet ∨ ∃ place, n = .violation .activeDescendantElsewhere place := by
  simp only [notices] at h
  split at h
  · simp at h
  rename_i f outer hframes
  rcases List.mem_append.1 h with h | h
  · have hstyle : s.elementNotices f locator "style" = s.styleNotices f := by
      rw [elementNotices, if_neg (by simp), if_pos rfl]
    rw [if_pos rfl, hstyle, styleNotices] at h
    left
    split at h
    · obtain rfl := List.mem_singleton.1 h
      rfl
    · obtain rfl := List.mem_singleton.1 h
      rfl
  · obtain ⟨place, -, rfl⟩ := List.mem_map.1 h
    exact .inr ⟨place, rfl⟩

end Rules.State

/-! ### Three sinks -/

namespace Checker

private theorem run_feedAll {σ : Type} [Sink σ] (css : CssParser Id) (c : Checker σ) (events : List Event) :
    (c.feedAll css events).run = ⟨c.state.run events,
      (c.state.runNotices events).foldl (fun sink n => (Notice.deliver css sink n).run) c.sink⟩ := by
  rw [feedAll_eq, Id.run_map, List.idRun_foldlM]

/-- Whatever events a checker is fed, a collector that asks for start hints, one that does not, and a sink that only
takes errors and warnings are given the same levels, messages and locators in the same order. Both collectors keep the
same uses, each where it comes first. Hints are kept by the first collector only, namely with the errors that are found
at the end of a `style` element. -/
theorem feedAll_capabilities (css : CssParser Id) (s : State) (events : List Event) {σ : Type}
    (error warning : σ → String → Locator → σ) (x : σ) :
    let hinted (events : List Event) := (feedAll css (⟨s, { startHints := true }⟩ : Checker Collector) events).run.sink
    let plain := (feedAll css (⟨s, {}⟩ : Checker Collector) events).run.sink
    let bare := (@feedAll σ (Sink.basic error warning) Id _ css ⟨s, x⟩ events).run.sink
    let said (d : Diagnostic) := (d.level, d.message, d.locator)
    let counted := (s.runNotices events).filterMap (Notice.counter? css)
    plain.diagnostics.map said = (hinted events).diagnostics.map said ∧
    bare = ((hinted events).diagnostics.map said).foldl (fun x (level, message, locator) =>
      match level with
      | .error => error x message locator
      | .warning => warning x message locator) x ∧
    plain.useCounters = counted.eraseDups ∧ (hinted events).useCounters = counted.eraseDups ∧
    counted.eraseDups.Nodup ∧
    (∀ d ∈ plain.diagnostics, d.start = none) ∧
    ∀ e, ∃ new, (hinted (events ++ [e])).diagnostics = (hinted events).diagnostics ++ new ∧
      ∀ d ∈ new, d.start.isSome ↔ d.level = .error ∧ ∃ locator, e = .endElement locator xhtml "style" := by
  intro hinted plain bare said counted
  have hhinted : ∀ events, hinted events =
      (Collector.countAll { startHints := true } ((s.runNotices events).filterMap (Notice.counter? css))).add
        ((s.runNotices events).flatMap (Notice.diagnostics css)) := by
    intro events
    simp only [hinted, run_feedAll, Collector.foldl_deliver]
    exact congrArg (Collector.add _) (List.map_id _)
  have hplain : plain = (Collector.countAll {} counted).add
      (((s.runNotices events).flatMap (Notice.diagnostics css)).map Diagnostic.unhinted) := by
    simp only [plain, run_feedAll, Collector.foldl_deliver]
    rfl
  have hdiagnostics : ∀ events, (hinted events).diagnostics =
      (s.runNotices events).flatMap (Notice.diagnostics css) := by
    intro events
    rw [hhinted, Collector.diagnostics_add, Collector.countAll_eq, List.nil_append]
  have hplainDiagnostics : plain.diagnostics = (hinted events).diagnostics.map Diagnostic.unhinted := by
    rw [hplain, Collector.diagnostics_add, Collector.countAll_eq, List.nil_append, hdiagnostics]
  have hcounters : ∀ c : Collector, c.useCounters = [] → (c.countAll counted).useCounters = counted.eraseDups := by
    intro c hc
    rw [Collector.countAll_eq, hc, List.nil_append, List.removeAll_nil]
  refine ⟨?_, ?_, ?_, ?_, ?_, ?_, fun e => ?_⟩
  · rw [hplainDiagnostics, List.map_map]
    rfl
  · simp only [bare, @run_feedAll σ (Sink.basic error warning), Sink.foldl_deliver_basic, hdiagnostics, List.foldl_map]
    rfl
  · rw [hplain]
    exact hcounters {} rfl
  · rw [hhinted]
    exact hcounters { startHints := true } rfl
  · rw [← hcounters {} rfl]
    exact Collector.nodup_countAll List.nodup_nil counted
  · rw [hplainDiagnostics]
    intro d hd
    obtain ⟨d', -, rfl⟩ := List.mem_map.1 hd
    rfl
  · refine ⟨((s.run events).notices e).flatMap (Notice.diagnostics css), ?_, fun d hd => ?_⟩
    · simp only [hdiagnostics, State.runNotices_append, State.runNotices_cons, State.runNotices_nil, List.append_nil,
        List.flatMap_append]
    · obtain ⟨n, hn, hd⟩ := List.mem_flatMap.1 hd
      rw [Notice.isSome_start_of_mem_diagnostics css hd]
      constructor
      · intro hstylesheet
        exact ⟨Notice.level_of_mem_diagnostics_stylesheet css hstylesheet hd,
          State.eq_endElement_of_isStylesheet hn hstylesheet⟩
      · rintro ⟨hlevel, locator, rfl⟩
        rcases State.cases_of_mem_notices_endStyle hn with hstylesheet | ⟨place, rfl⟩
        · exact hstylesheet
        · obtain rfl := List.mem_singleton.1 hd
          exact absurd hlevel (by simp [Violation.level])

end Checker

end MapMarkup
