import MapMarkup.Proofs.Blame
import MapMarkup.Proofs.Findings
import MapMarkup.Proofs.Lines
import MapMarkup.Proofs.TagEnds
import MapMarkup.Report

/-!
# The stretches of a document that diagnostics are about

A reader puts the place just past the `>` of a tag into the events of the tag, as a line and a column, and the rules
keep it until there is something to say about the tag. A report takes line and column back to the document, and finds
there the `>` of that very tag (`Checker.report_of_read`).
-/

namespace MapMarkup

open Xml (Reader)

/-- The event is one of those of call number `k`, which reads the end of a tag; in the document, `before` is in front of
the `>` of the tag, and the text that the reader has still ahead is behind it. -/
structure Xml.Reader.EndsTag (r : Reader) (source : List Char) (k : Nat) (e : Event) (before : List Char) : Prop where
  said : e ∈ (r.call k).1
  token : ∃ t, r.tokenOfCall k = some t ∧ t.isTagEnd
  text : source = before ++ '>' :: (r.afterCalls (k + 1)).lexer.cursor.rest

/-- A diagnostic without a start hint is about the character in front of its place. -/
private theorem Diagnostic.span?_eq {before after : List Char} {d : Diagnostic} (hstart : d.start = none)
    (hplace : let p := Position.start.after (before ++ ['>']); d.locator.line = p.line ∧ d.locator.column = p.column) :
    d.span? (before ++ '>' :: after) = some ⟨utf8Size before, utf8Size before + 1⟩ := by
  have hoffset : offsetAt (before ++ '>' :: after) d.locator.line d.locator.column = some (utf8Size before + 1) := by
    rw [hplace.1, hplace.2]
    exact offsetAt_after before (by decide) (by decide) after
  have hsize : sizeBefore (before ++ '>' :: after) (utf8Size before + 1) = 1 := sizeBefore_append before '>' after
  rw [span?, hoffset, Option.map_some, startOffset, hstart]
  dsimp only
  rw [hsize, Nat.add_sub_cancel]

/-- A violation that is found while a document is read concerns a tag that has been read: the one whose event finds it,
or an earlier one if the violation has been kept. -/
private theorem Rules.State.exists_endsTag (s : State) {source : List Char} {systemId : Option String} {v : Violation}
    {locator : Locator} (h : .violation v locator ∈ s.runNotices (Reader.start source systemId).events) :
    ∃ past finder later, (Reader.start source systemId).events = past ++ finder :: later ∧
      .violation v locator ∈ (s.run past).notices finder ∧
      ∃ k e before, (if v.isKept then e ∈ past else e = finder) ∧
        (Reader.start source systemId).EndsTag source k e before ∧ v.Concerns e ∧ e.locator? = some locator ∧
        locator = let p := Position.start.after (before ++ ['>']); ⟨p.line, p.column, systemId, none⟩ := by
  obtain ⟨body, opened, hcontent, hevents⟩ := Reader.exists_body source systemId
  have hbody : (Reader.start source systemId).events <+: .startDocument :: body ++ [.endDocument] := by
    rcases hevents with ⟨hevents, -⟩ | ⟨hevents, -⟩
    · exact hevents ▸ List.prefix_append ..
    · exact hevents ▸ List.prefix_rfl
  obtain ⟨past, finder, later, hall, hfound, e, he, hl, hconcerns⟩ :=
    s.attested_of_mem_runNotices hcontent.nested hbody h
  have hwhen : if v.isKept then e ∈ past else e = finder := by
    by_cases hkept : v.isKept
    · rw [if_pos hkept] at he ⊢
      exact he
    · rw [if_neg hkept] at he ⊢
      exact List.mem_singleton.1 he
  have hread : e ∈ (Reader.start source systemId).events := by
    rw [hall]
    split at hwhen
    · exact List.mem_append_left _ hwhen
    · exact hwhen ▸ List.mem_append_right past List.mem_cons_self
  obtain ⟨k, hk⟩ := Reader.exists_call_of_mem_events hread
  obtain ⟨t, before, ht, hend, htext, hplace⟩ := Reader.exists_tagEnd source systemId hk hl
  exact ⟨past, finder, later, hall, hfound, k, e, before, hwhen, ⟨hk, ⟨t, ht, hend⟩, htext⟩, hconcerns, hl, hplace⟩

/-- Every diagnostic that a document adds to a collector is one that the rules give at some event, and it is about the
tag of this event, or of an earlier one if it has been kept. Its report shows the `>` of that tag: the stretch of one
byte behind what is in front of the `>`. This holds also if the reading ends in an error. -/
theorem Checker.report_of_read (c : Checker Collector) (source : List Char) (systemId : Option String) :
    let r := Reader.start source systemId
    ∃ found, (c.read (m := Id) CssParser.none source systemId).1.sink = c.sink.add found ∧
      ∀ d ∈ found, ∃ (v : Violation) (past : List Event) (finder : Event) (later : List Event),
        r.events = past ++ finder :: later ∧ .violation v d.locator ∈ (c.state.run past).notices finder ∧
        ∃ (k : Nat) (e : Event) (before : List Char), (if v.isKept then e ∈ past else e = finder) ∧
          r.EndsTag source k e before ∧ v.Concerns e ∧ e.locator? = some d.locator ∧
          d.report source = ⟨v.level, v.message, [{ span := ⟨utf8Size before, utf8Size before + 1⟩ }]⟩ := by
  intro r
  rw [Checker.read_none]
  refine ⟨_, rfl, ?_⟩
  intro d hd
  obtain ⟨n, hn, hdiagnostic⟩ := List.mem_filterMap.1 hd
  cases n with
  | styleAttribute | stylesheet => simp [Rules.Notice.diagnostic?] at hdiagnostic
  | violation v locator =>
    obtain rfl := Option.some.inj hdiagnostic
    obtain ⟨past, finder, later, hall, hfound, k, e, before, hwhen, hends, hconcerns, hl, hplace⟩ :=
      c.state.exists_endsTag hn
    have hspan : Diagnostic.span? source ⟨v.level, v.message, locator, none⟩ =
        some ⟨utf8Size before, utf8Size before + 1⟩ := by
      rw [hends.text]
      exact Diagnostic.span?_eq rfl (by rw [hplace]; exact ⟨rfl, rfl⟩)
    refine ⟨v, past, finder, later, hall, hfound, k, e, before, hwhen, hends, hconcerns, hl, ?_⟩
    rw [Diagnostic.report, hspan]
    rfl

end MapMarkup
