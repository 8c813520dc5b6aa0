import MapMarkup.CommandLine.Session
import MapMarkup.Proofs.Documents
import MapMarkup.Proofs.Findings

/-!
# Each file on its own

One checker and one exit status go through all files. What is left of a file, once its collector has been emptied, is
the state that its document leaves; the next document starts by forgetting it, all but the configuration, which no
document can change (`Rules.State.sourceIsCss_events`). So a session that is ready for a file (`Session.Ready`) makes of
it what a new session makes of it, on top of what there is (`Session.Ready.checkFile_eq`), and is ready for the next
one. Hence the files of a command are checked as if each had a command of its own (`check_files`), in whatever form the
reports are shown.
-/

namespace MapMarkup

open Xml (Reader)

namespace Rules.State

/-- A document leaves the configuration as it is. -/
theorem sourceIsCss_events (s : State) (source : List Char) (systemId : Option String) :
    (s.run (Reader.start source systemId).events).sourceIsCss = s.sourceIsCss := by
  obtain ⟨i, -, outcome, ho, hstops⟩ := Reader.exists_stopsAt source systemId
  rw [Reader.events_eq hstops ho]
  exact Reader.sourceIsCss_eventsOfCalls s source systemId (i + 1)

/-- What is said about a document depends on the configuration only. -/
private theorem runNotices_events {s t : State} (h : s.sourceIsCss = t.sourceIsCss) (source : List Char)
    (systemId : Option String) :
    s.runNotices (Reader.start source systemId).events = t.runNotices (Reader.start source systemId).events := by
  -- A document starts by dropping all of the state but the configuration.
  have hstart : ∀ events, s.runNotices (.startDocument :: events) = t.runNotices (.startDocument :: events) := by
    intro events
    have hnext : s.next .startDocument = t.next .startDocument := by
      show ({ sourceIsCss := s.sourceIsCss } : State) = { sourceIsCss := t.sourceIsCss }
      rw [h]
    rw [runNotices_cons, runNotices_cons, hnext]
    rfl
  obtain ⟨body, opened, -, hevents⟩ := Reader.exists_body source systemId
  rcases hevents with ⟨hevents, -⟩ | ⟨hevents, -⟩
  · rw [hevents]
    exact hstart body
  · rw [hevents]
    exact hstart (body ++ [.endDocument])

end Rules.State

namespace CommandLine

variable {ω : Type} {render : Rendering ω} {flags : List Flag} {s : Session ω}

/-- The exit status after a file, if it was `status` before. -/
def statusAfter (status : Nat) (broken failed : Bool) : Nat :=
  let status := if broken then unreadable else status
  if failed && status = 0 then invalid else status

private theorem statusAfter_eq {status : Nat} (h : status ≤ 2) (broken failed : Bool) :
    statusAfter status broken failed = max status (statusAfter 0 broken failed) ∧
      statusAfter status broken failed ≤ 2 := by
  unfold statusAfter unreadable invalid
  cases broken with
  | true => simp [h]
  | false =>
    cases failed with
    | true =>
      by_cases h0 : status = 0
      · simp [h0]
      · simp [h0]
        omega
    | false => simp [h]

/-- What is printed when reports are to be shown; nothing, if there are none. -/
def printedReports (render : Rendering ω) (name : String) (source : List Char) (reports : List Report) :
    List (Printed ω) :=
  if reports = [] then [] else [.reports (render name source reports)]

namespace Session

/-- A session that is about to check a file: the collector is empty, and the configuration is that of the flags. -/
structure Ready (flags : List Flag) (s : Session ω) : Prop where
  sink : s.checker.sink = {}
  sourceIsCss : s.checker.state.sourceIsCss = flags.contains .cssSource
  status_le : s.status ≤ 2

theorem ready_start (flags : List Flag) : (start flags : Session ω).Ready flags :=
  ⟨rfl, rfl, Nat.zero_le 2⟩

/-- What is found in a document. -/
def found (flags : List Flag) (name : String) (source : List Char) : Collector :=
  Collector.add {} ((Rules.State.runNotices { sourceIsCss := flags.contains .cssSource }
    (Reader.start source (some name)).events).filterMap Rules.Notice.diagnostic?)

/-- What is printed about a document: the error at which reading it stops, and what is found in it. -/
def shown (render : Rendering ω) (flags : List Flag) (name : String) (source : List Char) : List (Printed ω) :=
  printedReports render name source ((Reader.start source (some name)).error?.toList.map (·.report source)) ++
    printedReports render name source ((found flags name source).diagnostics.map (Diagnostic.report source))

private theorem conclude_eq (s : Session ω) (warningsAsErrors : Bool) (name : String) (source : List Char) :
    s.conclude render warningsAsErrors name source =
      { checker := ⟨s.checker.state, s.checker.sink.clear⟩
        status := statusAfter s.status false
          (s.checker.sink.hasErrors || (warningsAsErrors && s.checker.sink.diagnostics ≠ []))
        printed := s.printed ++
          printedReports render name source (s.checker.sink.diagnostics.map (Diagnostic.report source)) } := by
  -- Both sides ask whether anything has been found, and whether the file has failed and nothing has before.
  by_cases hfound : s.checker.sink.diagnostics = []
  · simp only [conclude, statusAfter, printedReports, hfound, List.map_nil, List.append_nil, Bool.false_eq_true,
      ↓reduceIte]
    split <;> rfl
  · have hmap : s.checker.sink.diagnostics.map (Diagnostic.report source) ≠ [] := by simpa using hfound
    simp only [conclude, statusAfter, printedReports, hfound, hmap, print, Bool.false_eq_true, ↓reduceIte]
    split <;> rfl

private theorem Ready.read_eq (h : s.Ready flags) (name : String) (source : List Char) :
    let r := Reader.start source (some name)
    s.read render name source =
      { checker := ⟨s.checker.state.run r.events, found flags name source⟩
        status := if r.error?.isSome then unreadable else s.status
        printed := s.printed ++ printedReports render name source (r.error?.toList.map (·.report source)) } := by
  intro r
  have hread : Id.run (s.checker.read CssParser.none source (some name)) =
      (⟨s.checker.state.run r.events, found flags name source⟩, r.error?) := by
    rw [found, ← h.sink, Rules.State.runNotices_events (s := { sourceIsCss := _ }) h.sourceIsCss.symm]
    exact s.checker.read_none source (some name)
  unfold read
  rw [hread]
  cases r.error? with
  | none => simp [printedReports]
  | some e => rfl

/-- A file that can be read adds its reports, and its part to the status. -/
theorem Ready.checkFile_text (h : s.Ready flags) (render : Rendering ω) (warningsAsErrors : Bool) (name : String)
    (source : List Char) :
    let r := Reader.start source (some name)
    let c := found flags name source
    s.checkFile render warningsAsErrors ⟨name, .ok source⟩ =
      { checker := ⟨s.checker.state.run r.events, {}⟩
        status := statusAfter s.status r.error?.isSome (c.hasErrors || (warningsAsErrors && c.diagnostics ≠ []))
        printed := s.printed ++ shown render flags name source } := by
  intro r c
  show (s.read render name source).conclude render warningsAsErrors name source = _
  rw [conclude_eq, h.read_eq, shown, ← List.append_assoc]
  rfl

/-- A session makes of a file what a new session makes of it, on top of what there is. -/
theorem Ready.checkFile_eq (h : s.Ready flags) (render : Rendering ω) (file : File) :
    let checked := s.checkFile render (flags.contains .warningsAsErrors) file
    checked.Ready flags ∧ checked.status = max s.status (check render flags [file]).status ∧
      checked.printed = s.printed ++ (check render flags [file]).printed := by
  obtain ⟨name, text⟩ := file
  cases text with
  | error reason =>
    refine ⟨⟨h.sink, h.sourceIsCss, Nat.le_refl 2⟩, ?_, rfl⟩
    show 2 = max s.status 2
    rw [Nat.max_eq_right h.status_le]
  | ok source =>
    have hready : (start flags : Session ω).Ready flags := ready_start flags
    have hstart := hready.checkFile_text render (flags.contains .warningsAsErrors) name source
    have hstatus := statusAfter_eq h.status_le
    simp only [check, List.foldl_cons, List.foldl_nil, hstart, h.checkFile_text]
    refine ⟨⟨rfl, ?_, (hstatus _ _).2⟩, (hstatus _ _).1, rfl⟩
    rw [Rules.State.sourceIsCss_events]
    exact h.sourceIsCss

private theorem Ready.foldl_checkFile (h : s.Ready flags) (render : Rendering ω) (files : List File) :
    let checked := files.foldl (checkFile render (flags.contains .warningsAsErrors)) s
    checked.status = max s.status ((files.map fun file => (check render flags [file]).status).foldr max 0) ∧
      checked.printed = s.printed ++ files.flatMap fun file => (check render flags [file]).printed := by
  induction files generalizing s with
  | nil => exact ⟨(Nat.max_zero s.status).symm, (List.append_nil s.printed).symm⟩
  | cons file files ih =>
    obtain ⟨hready, hstatus, hprinted⟩ := h.checkFile_eq render file
    obtain ⟨hlater, hlaterPrinted⟩ := ih hready
    constructor
    · rw [List.foldl_cons, hlater, hstatus, List.map_cons, List.foldr_cons, Nat.max_assoc]
    · rw [List.foldl_cons, hlaterPrinted, hprinted, List.flatMap_cons, List.append_assoc]

end Session

/-- Checking files comes to the worst exit status that any of them has on its own, and prints what is printed about each
of them on its own, one after the other; so their order has no influence on the exit status. -/
theorem check_files (render : Rendering ω) (flags : List Flag) (files : List File) :
    let result : List File → Result ω := check render flags
    (result files).status = (files.map fun file => (result [file]).status).foldr max 0 ∧
    (result files).printed = files.flatMap (fun file => (result [file]).printed) ∧
    ∀ others, others.Perm files → (result others).status = (result files).status := by
  intro result
  have hresult : ∀ files, (result files).status = (files.map fun file => (result [file]).status).foldr max 0 ∧
      (result files).printed = files.flatMap fun file => (result [file]).printed := by
    intro files
    have hready : (Session.start flags : Session ω).Ready flags := Session.ready_start flags
    obtain ⟨hstatus, hprinted⟩ := hready.foldl_checkFile render files
    exact ⟨hstatus.trans (Nat.zero_max _), hprinted⟩
  refine ⟨(hresult files).1, (hresult files).2, fun others h => ?_⟩
  -- The worst of some exit statuses does not depend on their order.
  rw [(hresult others).1, (hresult files).1]
  exact (h.map _).foldr_eq' (fun a _ b _ c => Nat.max_left_comm b a c) 0

end CommandLine

end MapMarkup
