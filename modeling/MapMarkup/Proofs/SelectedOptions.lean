import Mathlib.Data.List.Induction
import Mathlib.Data.List.TakeWhile
import MapMarkup.Proofs.Forest
import MapMarkup.Proofs.Journal
import MapMarkup.Proofs.OpenRecords

/-!
# Selected options

What is known about the open `select` elements is kept in two places: under its depth that only one option can be
selected, and in its frame that one is. Taken together these are the elements `State.openSelects`, which are a stack:
the start of a `select` puts one on it (`State.openSelects_start`), the end takes it off (`State.openSelects_finish`),
and a selected option is noted in the uppermost one only, so that an element hears of those options alone that have no
other `select` around them (`State.exists_openSelects_run`).

So of the selected options of a `select` without `multiple` each but the first is said to be one too many, and of other
options nothing of the kind is said (`State.placesOf_secondSelectedOption`).
-/

namespace MapMarkup.Rules

open Event (NestsTo track trackAll)
open Vocabulary

/-! ### Open selects -/

/-- What is known about an open `select`. -/
structure OpenSelect where
  /-- Whether only one option can be selected. -/
  single : Bool
  /-- Whether it is noted that an option is selected. -/
  selected : Bool
deriving DecidableEq, Repr

namespace OpenSelect

/-- Whether a further selected option is one too many. -/
def isFull (o : OpenSelect) : Bool :=
  o.single && o.selected

/-- What is known after a start tag, if no other `select` is around it. -/
def note (o : OpenSelect) (t : StartTag) : OpenSelect :=
  { o with selected := o.selected || (o.single && t.isSelectedOption) }

private theorem note_of_not_isSelectedOption {t : StartTag} (h : t.isSelectedOption = false) : (note · t) = id := by
  funext o
  rw [note, h, Bool.and_false, Bool.or_false, id_eq]

end OpenSelect

/-- The open `select` elements among the frames, innermost first, if only one option can be selected in those at the
given depths. -/
def openSelectsIn (single : List Nat) : List Frame → List OpenSelect
  | [] => []
  | f :: outer =>
    (if f.isNamed "select" then [⟨single.contains outer.length, f.options.selectedFound⟩] else []) ++
      openSelectsIn single outer

/-- The open `select` elements, innermost first. -/
def State.openSelects (s : State) : List OpenSelect :=
  openSelectsIn s.singleSelects s.frames

/-- What a frame says about itself if it is that of a `select`. -/
def Frame.selectNote (f : Frame) : Option String × Bool :=
  (f.name, f.options.selectedFound)

private theorem Frame.selectNote_collect (f : Frame) (text : String) : (f.collect text).selectNote = f.selectNote := by
  unfold collect
  split
  · rfl
  · rfl

private theorem Frame.selectNote_noteChild (t : StartTag) (f : Frame) :
    (State.noteChild t f).selectNote = f.selectNote := by
  show (noteOption t f).selectNote = f.selectNote
  unfold noteOption
  grind [selectNote]

private theorem Frame.selectNote_noteOptionEnd (f parent : Frame) :
    (noteOptionEnd f parent).selectNote = parent.selectNote := by
  unfold noteOptionEnd
  grind [selectNote]

private theorem openSelectsIn_congr (single : List Nat) {frames frames' : List Frame}
    (h : frames.map Frame.selectNote = frames'.map Frame.selectNote) :
    openSelectsIn single frames = openSelectsIn single frames' := by
  induction frames generalizing frames' with
  | nil =>
    obtain rfl := List.map_eq_nil_iff.1 h.symm
    rfl
  | cons f outer ih =>
    obtain ⟨f', outer', rfl, hf, houter⟩ := List.map_eq_cons_iff.1 h.symm
    have hlength : outer'.length = outer.length := by simpa using congrArg List.length houter
    obtain ⟨hname, hselected⟩ := Prod.mk.inj hf
    rw [openSelectsIn, openSelectsIn, ih houter.symm, hlength, Frame.isNamed, Frame.isNamed, hname, hselected]

/-- Only the depths of the frames themselves matter. -/
private theorem openSelectsIn_congr_single {single single' : List Nat} {frames : List Frame}
    (h : ∀ depth < frames.length, single.contains depth = single'.contains depth) :
    openSelectsIn single frames = openSelectsIn single' frames := by
  induction frames with
  | nil => rfl
  | cons f outer ih =>
    have houter : single.contains outer.length = single'.contains outer.length := h _ (Nat.lt_succ_self _)
    rw [openSelectsIn, openSelectsIn, houter, ih fun depth hdepth => h depth (Nat.lt_succ_of_lt hdepth)]

private theorem openSelectsIn_noteSelected (single : List Nat) (frames : List Frame) :
    openSelectsIn single (noteSelected frames) =
      (openSelectsIn single frames).modifyHead ({ · with selected := true }) := by
  induction frames with
  | nil => rfl
  | cons f outer ih =>
    have hlength : (noteSelected outer).length = outer.length := by simp
    by_cases hf : f.isNamed "select"
    · have hf' : ({ f with options.selectedFound := true } : Frame).isNamed "select" := hf
      rw [noteSelected, if_pos hf, openSelectsIn, if_pos hf', openSelectsIn, if_pos hf]
      rfl
    · rw [noteSelected, if_neg hf, openSelectsIn, if_neg hf, openSelectsIn, if_neg hf, ih]
      rfl

private theorem head?_openSelectsIn (single : List Nat) (frames : List Frame) :
    (openSelectsIn single frames).head? =
      match frames.dropWhile fun f => !f.isNamed "select" with
      | [] => none
      | f :: outer => some ⟨single.contains outer.length, f.options.selectedFound⟩ := by
  induction frames with
  | nil => rfl
  | cons f outer ih =>
    by_cases hf : f.isNamed "select"
    · simp [openSelectsIn, hf]
    · simp [openSelectsIn, hf, ih]

namespace State

/-! ### What the innermost select decides -/

private theorem countsSelected_eq (s : State) (t : StartTag) :
    s.countsSelected t = (t.isSelectedOption && s.openSelects.head?.any (·.single)) := by
  rw [openSelects, head?_openSelectsIn, countsSelected, fromSelect]
  cases s.frames.dropWhile fun f => !f.isNamed "select" with
  | nil => rfl
  | cons f outer => rfl

private theorem optionNotices_eq (s : State) (t : StartTag) :
    optionNotices s t =
      if t.isSelectedOption && s.openSelects.head?.any (·.isFull) then [.violation .secondSelectedOption t.locator]
      else [] := by
  rw [optionNotices, countsSelected_eq, openSelects, head?_openSelectsIn, fromSelect]
  cases s.frames.dropWhile fun f => !f.isNamed "select" with
  | nil => simp
  | cons f outer => simp [OpenSelect.isFull, Bool.and_assoc]

/-- No other rule on a start tag says that an option is one too many. -/
private theorem placesOf_startNotices_eq (s : State) (t : StartTag) :
    placesOf .secondSelectedOption (s.startNotices t) = placesOf .secondSelectedOption (optionNotices s t) := by
  have hlink : placesOf .secondSelectedOption (if t.name = "link" then linkNotices s t else []) = [] := by
    rw [placesOf_eq_nil_iff]
    split <;> simp [linkNotices, StartTag.mem_noticeIf]
  rw [placesOf_startNotices s t rfl, hlink, List.nil_append]

/-- An option is said to be one too many if it is selected and the innermost `select` around it is full. -/
private theorem placesOf_notices_secondSelectedOption (s : State) (e : Event) :
    placesOf .secondSelectedOption (s.notices e) =
      if s.openSelects.head?.any (·.isFull) then
        ((startTag? e).toList.filter (·.isSelectedOption)).map (·.locator)
      else [] := by
  have hsaid (e : Event) (he : startTag? e = none) : Violation.secondSelectedOption.isSaidAt e = false := by
    simp [Violation.isSaidAt, Event.starts, he]
  rw [placesOf_notices_of_startTag hsaid]
  cases startTag? e with
  | none => simp
  | some t =>
    rw [Option.toList_some, List.flatMap_singleton, placesOf_startNotices_eq, optionNotices_eq]
    cases hselected : t.isSelectedOption with
    | false => simp [placesOf, hselected]
    | true => cases s.openSelects.head?.any (·.isFull) <;> simp [placesOf, hselected]

/-! ### Steps -/

private theorem openSelectsIn_noted (s : State) (t : StartTag) :
    openSelectsIn s.singleSelects (if s.countsSelected t then noteSelected s.frames else s.frames) =
      s.openSelects.modifyHead (·.note t) := by
  rw [countsSelected_eq]
  have hselects : openSelectsIn s.singleSelects s.frames = s.openSelects := rfl
  split
  · rename_i h
    rw [openSelectsIn_noteSelected, hselects]
    cases hopen : s.openSelects with
    | nil => rfl
    | cons o outer =>
      rw [hopen, List.head?_cons, Option.any_some, Bool.and_eq_true] at h
      simp [OpenSelect.note, h.1, h.2]
  · rename_i h
    rw [hselects]
    cases hopen : s.openSelects with
    | nil => rfl
    | cons o outer =>
      rw [hopen, List.head?_cons, Option.any_some, Bool.and_comm, Bool.not_eq_true] at h
      simp [OpenSelect.note, h]

variable {s : State}

private theorem contains_singleSelects_start (hs : ∀ depth ∈ s.singleSelects, depth < s.depth) (t : StartTag) :
    (s.start t).singleSelects.contains s.depth = t.isSingleSelect := by
  have hnew : s.depth ∉ s.singleSelects := fun h => Nat.lt_irrefl _ (hs _ h)
  show (if t.isSingleSelect then _ else s.singleSelects).contains s.depth = _
  split
  · rename_i h
    simp [h]
  · rename_i h
    simp [h, hnew]

theorem openSelects_start (hs : ∀ depth ∈ s.singleSelects, depth < s.depth) (t : StartTag) :
    (s.start t).openSelects =
      (if t.name = "select" then [⟨t.isSingleSelect, false⟩] else []) ++ s.openSelects.modifyHead (·.note t) := by
  have hlength : (s.framesAfter t).tail.length = s.depth := by
    rw [List.length_tail]
    exact Nat.sub_eq_of_eq_add (s.depth_start t)
  have hold : ∀ depth < (s.framesAfter t).tail.length,
      (s.start t).singleSelects.contains depth = s.singleSelects.contains depth := by
    intro depth hdepth
    rw [hlength] at hdepth
    show (if t.isSingleSelect then _ else s.singleSelects).contains depth = _
    split
    · simp [Nat.ne_of_lt hdepth]
    · rfl
  have hselect : (s.frameOf t).isNamed "select" = decide (t.name = "select") := by simp [Frame.isNamed, frameOf]
  show openSelectsIn _ (s.frameOf t :: (s.framesAfter t).tail) = _
  rw [openSelectsIn, hlength, contains_singleSelects_start hs, hselect, openSelectsIn_congr_single hold,
    ← s.openSelectsIn_noted t]
  simp only [decide_eq_true_eq]
  refine congrArg (_ ++ ·) (openSelectsIn_congr _ ?_)
  exact map_modifyHead_of_eq (Frame.selectNote_noteChild t) _

/-- A start tag is noted in the innermost `select` around it, whatever is below that one. -/
private theorem exists_openSelects_start (hs : ∀ depth ∈ s.singleSelects, depth < s.depth)
    {inner around : List OpenSelect}
    {o : OpenSelect} (hopen : s.openSelects = inner ++ o :: around) (t : StartTag) :
    ∃ inner', (s.start t).openSelects = inner' ++ (if inner = [] then o.note t else o) :: around ∧
      inner'.length = inner.length + if t.name = "select" then 1 else 0 := by
  let started : List OpenSelect := if t.name = "select" then [⟨t.isSingleSelect, false⟩] else []
  have hstarted : started.length = if t.name = "select" then 1 else 0 := apply_ite List.length _ _ _
  rw [openSelects_start hs, hopen]
  cases inner with
  | nil => exact ⟨started, rfl, by rw [hstarted, List.length_nil, Nat.zero_add]⟩
  | cons o' inner =>
    refine ⟨started ++ o'.note t :: inner, ?_, ?_⟩
    · rw [if_neg (List.cons_ne_nil _ _), List.cons_append, List.modifyHead_cons, List.append_assoc]
      rfl
    · rw [List.length_append, hstarted, List.length_cons, List.length_cons, Nat.add_comm]

theorem openSelects_finish (s : State) (f : Frame) (outer : List Frame) (uri name : String) :
    (s.finish f outer uri name).openSelects = openSelectsIn s.singleSelects outer := by
  have hnotes : (framesAfterEnd f uri name outer).map Frame.selectNote = outer.map Frame.selectNote :=
    map_framesAfterEnd Frame.selectNote_noteOptionEnd f uri name outer
  show openSelectsIn (s.singleSelects.filter (· ≠ outer.length)) (framesAfterEnd f uri name outer) = _
  rw [openSelectsIn_congr _ hnotes]
  refine openSelectsIn_congr_single fun depth hdepth => ?_
  simp [Nat.ne_of_lt hdepth]

private theorem openSelects_characters (s : State) (text : String) :
    (s.next (.characters text)).openSelects = s.openSelects :=
  openSelectsIn_congr _ (map_modifyHead_of_eq (fun f => f.selectNote_collect text) s.frames)

private theorem openSelects_startOther (s : State) (locator : Locator) :
    (s.startOther locator).openSelects = s.openSelects :=
  rfl

private theorem openSelects_endElement {uri name : String} {opened : List ElementName}
    (hs : s.frames.map (·.name) = ((uri, name) :: opened).map knownName) (locator : Locator) :
    (s.next (.endElement locator uri name)).openSelects =
      if (uri, name) = (xhtml, "select") then s.openSelects.tail else s.openSelects := by
  obtain ⟨f, outer, hframes, hf, -⟩ := List.map_eq_cons_iff.1 hs
  have hselect : f.isNamed "select" = decide ((uri, name) = (xhtml, "select")) := by
    rw [Frame.isNamed, hf]
    exact decide_eq_decide.2 knownName_eq_some_iff
  rw [next_end_cons hframes, openSelects_finish, openSelects, hframes, openSelectsIn, hselect]
  simp only [decide_eq_true_eq]
  split
  · rfl
  · rfl

end State

/-! ### Runs -/

/-- The entries of a journal that stand in no `select` which has started since it was begun. -/
def ownEntries (journal : List Entry) : List Entry :=
  journal.filter fun e => (xhtml, "select") ∉ e.opened

/-- The start tags of selected options among some entries. -/
def selectedOptions (entries : List Entry) : List StartTag :=
  (entries.filterMap (startTag? ·.event)).filter (·.isSelectedOption)

private theorem selectedOptions_append (entries entries' : List Entry) :
    selectedOptions (entries ++ entries') = selectedOptions entries ++ selectedOptions entries' := by
  rw [selectedOptions, List.filterMap_append, List.filter_append]
  rfl

namespace State

variable {s : State} {outer opened : List ElementName} {t : StartTag} {content : List Event}

private theorem ownEntries_journal_concat (h : NestsTo [] content opened) (e : Event) :
    ownEntries (s.journal [] (content ++ [e])) = ownEntries (s.journal [] content) ++
      if (xhtml, "select") ∈ opened then [] else [⟨opened, e, (s.run content).notices e⟩] := by
  rw [ownEntries, journal_concat, List.filter_append, h.trackAll_eq, ownEntries, List.append_cancel_left_eq]
  by_cases hopen : (xhtml, "select") ∈ opened
  · simp [hopen]
  · simp [hopen]

private theorem selectedOptions_journal_concat (h : NestsTo [] content opened) (e : Event) :
    selectedOptions (ownEntries (s.journal [] (content ++ [e]))) =
      selectedOptions (ownEntries (s.journal [] content)) ++
        if (xhtml, "select") ∈ opened then [] else (startTag? e).toList.filter (·.isSelectedOption) := by
  rw [ownEntries_journal_concat h, selectedOptions_append, List.append_cancel_left_eq]
  split
  · rfl
  · cases htag : startTag? e <;> simp [selectedOptions, htag]

private theorem names_run_start (hs : s.frames.map (·.name) = outer.map knownName) (t : StartTag)
    (h : NestsTo [] content opened) :
    ((s.start t).run content).frames.map (·.name) = (opened ++ (xhtml, t.name) :: outer).map knownName := by
  have hrun := names_run (names_next hs t.event) content
  rw [show track outer t.event = [] ++ (xhtml, t.name) :: outer from rfl, (h.append_outer _).trackAll_eq] at hrun
  exact hrun

/-- Without a start tag of the vocabulary a properly nested event at most takes the innermost `select` off. -/
private theorem openSelects_next {between : List ElementName} {e : Event} (he : NestsTo between [e] opened)
    (hreset : .reset ≠ e)
    (htag : startTag? e = none) (hs : s.frames.map (·.name) = (between ++ outer).map knownName) :
    opened.count (xhtml, "select") ≤ between.count (xhtml, "select") ∧
      (s.next e).openSelects =
        s.openSelects.drop (between.count (xhtml, "select") - opened.count (xhtml, "select")) := by
  have hkept {s' : State} (hs' : s'.openSelects = s.openSelects) (n : Nat) :
      n ≤ n ∧ s'.openSelects = s.openSelects.drop (n - n) := ⟨Nat.le_refl n, by rw [Nat.sub_self, List.drop_zero, hs']⟩
  cases e with
  | startDocument | endDocument => exact absurd ((Event.nestsTo_cons rfl []).1 he) (by simp [Event.nest?])
  | reset => exact absurd rfl hreset
  | sourceIsCss value =>
    obtain rfl : between = opened := Option.some.inj he
    exact hkept rfl _
  | characters text =>
    obtain rfl : between = opened := Option.some.inj he
    exact hkept (s.openSelects_characters text) _
  | startElement locator uri name attributes =>
    obtain rfl : (uri, name) :: between = opened := Option.some.inj he
    have hu : uri ≠ xhtml := by
      intro hu
      simp [startTag?, hu] at htag
    rw [List.count_cons_of_ne (by simp [hu]), next_startOther s locator name attributes hu]
    exact hkept (s.openSelects_startOther locator) _
  | endElement locator uri name =>
    obtain ⟨between', hend, hlast⟩ := (Event.nestsTo_cons rfl []).1 he
    obtain rfl : between' = opened := Option.some.inj hlast
    obtain rfl := Event.eq_cons_of_nest?_endElement hend
    rw [openSelects_endElement hs]
    split
    · rename_i hselect
      rw [hselect, List.count_cons_self, Nat.add_sub_cancel_left, List.drop_one]
      exact ⟨Nat.le_succ _, rfl⟩
    · rename_i hselect
      rw [List.count_cons_of_ne hselect]
      exact hkept rfl _

/-- Behind the start of a `select` and properly nested events, the element is below those that have started in it, and
the others are as they were. -/
theorem exists_openSelects_run (hs : ∀ depth ∈ s.singleSelects, depth < s.depth)
    (hnames : s.frames.map (·.name) = outer.map knownName) (ht : t.name = "select") (h : NestsTo [] content opened)
    (hreset : .reset ∉ content) :
    let selected := selectedOptions (ownEntries ((s.start t).journal [] content))
    ∃ inner, ((s.start t).run content).openSelects =
        inner ++ ⟨t.isSingleSelect, t.isSingleSelect && selected ≠ []⟩ :: s.openSelects ∧
      inner.length = opened.count (xhtml, "select") := by
  intro selected
  induction content using List.reverseRecOn generalizing opened with
  | nil =>
    obtain rfl : [] = opened := Option.some.inj h
    have hother : t.isSelectedOption = false := by simp [StartTag.isSelectedOption, ht]
    have hnote : s.openSelects.modifyHead (·.note t) = s.openSelects := by
      rw [OpenSelect.note_of_not_isSelectedOption hother, List.modifyHead_id, id_eq]
    refine ⟨[], ?_, rfl⟩
    rw [run_nil, openSelects_start hs, hnote, if_pos ht]
    simp [selected, selectedOptions, ownEntries, journal]
  | append_singleton content e ih =>
    obtain ⟨between, hbefore, he⟩ := h.of_append
    rw [List.mem_append, List.mem_singleton, not_or] at hreset
    obtain ⟨inner, hopen, hlength⟩ := ih hbefore hreset.1
    have hrun : (s.start t).run (content ++ [e]) = ((s.start t).run content).next e := run_append _ content [e]
    have hselected : selected = _ := selectedOptions_journal_concat hbefore e
    rw [hrun, hselected]
    cases htag : startTag? e with
    | none =>
      obtain ⟨hle, hnext⟩ := openSelects_next he hreset.2 htag (names_run_start hnames t hbefore)
      refine ⟨inner.drop (between.count (xhtml, "select") - opened.count (xhtml, "select")), ?_, ?_⟩
      · rw [hnext, hopen, List.drop_append_of_le_length (by omega)]
        simp
      · rw [List.length_drop]
        omega
    | some u =>
      have hbelow : ∀ depth ∈ ((s.start t).run content).singleSelects, depth < ((s.start t).run content).depth :=
        Recording.lawful_singleSelects.depthOf_lt_run
          (Recording.lawful_singleSelects.depthOf_lt_next hs t.event) content
      obtain rfl := startTag?_eq_some_iff.1 htag
      obtain rfl : (xhtml, u.name) :: between = opened := Option.some.inj he
      have hnone : inner = [] ↔ (xhtml, "select") ∉ between := by
        rw [← List.length_eq_zero_iff, hlength, List.count_eq_zero]
      obtain ⟨inner', hnext, hlength'⟩ := exists_openSelects_start hbelow hopen u
      refine ⟨inner', ?_, ?_⟩
      · rw [StartTag.event, next_start, hnext]
        by_cases hin : (xhtml, "select") ∈ between
        · simp [hnone, hin]
        · rw [if_pos (hnone.2 hin), if_neg hin, OpenSelect.note]
          cases t.isSingleSelect <;> cases hu : u.isSelectedOption <;> simp [hu]
      · rw [hlength', hlength, List.count_cons]
        by_cases hu : u.name = "select" <;> simp [hu]

/-- What is said of the options whose innermost `select` is the element. -/
private theorem placesOf_ownEntries (hs : ∀ depth ∈ s.singleSelects, depth < s.depth)
    (hnames : s.frames.map (·.name) = outer.map knownName) (ht : t.name = "select") (h : NestsTo [] content opened)
    (hreset : .reset ∉ content) :
    let own := ownEntries ((s.start t).journal [] content)
    (own.flatMap fun e => (placesOf .secondSelectedOption e.notices).map (e.event, ·)) =
      (if t.isSingleSelect then (selectedOptions own).tail else []).map fun u => (u.event, u.locator) := by
  induction content using List.reverseRecOn generalizing opened with
  | nil => simp [ownEntries, selectedOptions, journal]
  | append_singleton content e ih =>
    obtain ⟨between, hbefore, -⟩ := h.of_append
    rw [List.mem_append, List.mem_singleton, not_or] at hreset
    intro own
    have hselected : selectedOptions own = _ := selectedOptions_journal_concat hbefore e
    have hown : own = _ := ownEntries_journal_concat hbefore e
    rw [hselected, hown, List.flatMap_append, ih hbefore hreset.1]
    by_cases hopen : (xhtml, "select") ∈ between
    · simp only [hopen, ↓reduceIte, List.flatMap_nil, List.append_nil]
    · -- The event has no `select` around it but the element, which is full if an option is selected already.
      obtain ⟨inner, hselects, hlength⟩ := exists_openSelects_run hs hnames ht hbefore hreset.1
      obtain rfl : inner = [] := List.eq_nil_of_length_eq_zero (hlength.trans (List.count_eq_zero.2 hopen))
      rw [if_neg hopen, if_neg hopen, List.flatMap_singleton, placesOf_notices_secondSelectedOption, hselects,
        List.nil_append, List.head?_cons, Option.any_some, OpenSelect.isFull]
      cases t.isSingleSelect with
      | false => rfl
      | true =>
        rw [if_pos rfl, if_pos rfl, tail_concat_startTag?, List.map_append, List.append_cancel_left_eq]
        by_cases hfirst : selectedOptions (ownEntries ((s.start t).journal [] content)) = []
        · simp [hfirst]
        · rw [if_neg hfirst, ← map_locator_startTag?]
          simp [hfirst]

private theorem openSelects_eq_nil {opened : List ElementName} (hs : s.frames.map (·.name) = opened.map knownName)
    (h : (xhtml, "select") ∉ opened) : s.openSelects = [] := by
  have hnone : ∀ f ∈ s.frames, f.isNamed "select" = false := by
    intro f hf
    obtain ⟨name, hname, hknown⟩ := List.mem_map.1 (hs ▸ List.mem_map_of_mem hf)
    refine decide_eq_false fun hselect => h ?_
    rw [← knownName_eq_some_iff.1 (hknown.trans hselect)]
    exact hname
  have hhead : s.openSelects.head? = none := by
    rw [openSelects, head?_openSelectsIn, List.dropWhile_eq_nil_iff.2 fun f hf => by rw [hnone f hf]; rfl]
  exact List.head?_eq_none_iff.1 hhead

/-- Take the selected options whose innermost `select` is a given one. If it has no `multiple`, each of them but the
first is said to be one too many, once and at its own place; otherwise none is. This depends neither on what has come
before nor on the `select` elements around it and inside it. Of an option without a `select` around it nothing of the
kind is said. -/
theorem placesOf_secondSelectedOption (sourceIsCss : Bool) (past : List Event) (ht : t.name = "select")
    (h : NestsTo [] content opened) (hreset : .reset ∉ content) :
    let new : State := { sourceIsCss }
    let own := ownEntries (((new.run past).start t).journal [] content)
    (own.flatMap fun e => (placesOf .secondSelectedOption e.notices).map (e.event, ·)) =
      (if t.has "multiple" then [] else (selectedOptions own).tail).map (fun u => (u.event, u.locator)) ∧
    ∀ (past' : List Event) (e : Event), (xhtml, "select") ∉ trackAll [] past' →
      placesOf .secondSelectedOption ((new.run past').notices e) = [] := by
  intro new own
  have hnames (events : List Event) : (new.run events).frames.map (·.name) = (trackAll [] events).map knownName :=
    names_run rfl events
  constructor
  · have hbelow : ∀ depth ∈ (new.run past).singleSelects, depth < (new.run past).depth :=
      Recording.lawful_singleSelects.depthOf_lt sourceIsCss past
    have hsingle : t.isSingleSelect = !t.has "multiple" := by simp [StartTag.isSingleSelect, ht]
    have hsaid := placesOf_ownEntries hbelow (hnames past) ht h hreset
    rw [hsingle] at hsaid
    refine hsaid.trans ?_
    cases t.has "multiple" with
    | false => rfl
    | true => rfl
  · intro past' e hnone
    rw [placesOf_notices_secondSelectedOption, openSelects_eq_nil (hnames past') hnone]
    rfl

/-- Options in a group, in a `select` with `multiple`, in another one without it, and behind these. -/
def nestedSelects : Forest :=
  .onLine 3 "option" [("selected", "")] .nil <|
  .onLine 4 "optgroup" [] (.onLine 5 "option" [("selected", "")] .nil .nil) <|
  .onLine 6 "select" [("multiple", "")]
    (.onLine 7 "option" [("selected", "")] .nil <| .onLine 8 "option" [("selected", "")] .nil .nil) <|
  .onLine 9 "select" []
    (.onLine 10 "option" [("selected", "")] .nil <| .onLine 11 "option" [("selected", "")] .nil .nil) <|
  .onLine 12 "option" [("selected", "")] .nil .nil

theorem placesOf_secondSelectedOption_nestedSelects :
    let past := (Forest.onLine 1 "select" [] (.onLine 1 "option" [("selected", "")] .nil .nil) .nil).events
    let own := ownEntries (((({} : State).run past).start ⟨⟨2, 9, none, none⟩, "select", []⟩).journal []
      nestedSelects.events)
    (own.flatMap fun e => (placesOf .secondSelectedOption e.notices).map (e.event, ·)).map (·.2) =
      [⟨5, 40, none, none⟩, ⟨12, 40, none, none⟩] ∧
    placesOf .secondSelectedOption ((({} : State).run past).notices
      (.startElement ⟨2, 9, none, none⟩ xhtml "option" (.ofPairs [("selected", "")]))) = [] := by
  intro past own
  obtain ⟨hown, houtside⟩ := placesOf_secondSelectedOption false past (t := ⟨⟨2, 9, none, none⟩, "select", []⟩) rfl
    nestedSelects.nestsTo_events (by decide +kernel)
  constructor
  · rw [hown]
    decide +kernel
  · exact houtside past _ (by decide +kernel)

end State

end MapMarkup.Rules
