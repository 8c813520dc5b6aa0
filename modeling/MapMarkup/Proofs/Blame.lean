import MapMarkup.Proofs.Frames
import MapMarkup.Proofs.Registration
import MapMarkup.Proofs.StartNotices
import MapMarkup.Proofs.Tokens

/-!
# Which tag a violation is about

Every violation is about one tag: a start tag that is not as it should be, or the end tag of an element that lacks
something (`Violation.Concerns`). Most violations are found when this very tag is read; the others are kept and may be
found much later, at the end of another element or of the document (`Violation.isKept`). What is kept until then has the
place of the tag with it (`State.Documented`). So along properly nested events each violation is reported at the place
of the event that finds it, or else of an earlier tag that it is about (`State.attested_of_mem_runNotices`).
-/

namespace MapMarkup

open Rules Vocabulary

private theorem Rules.locator?_of_startTag? {e : Event} {t : StartTag} (h : startTag? e = some t) :
    e.locator? = some t.locator := by
  cases e with
  | startElement locator uri name attributes =>
    by_cases hu : uri = xhtml
    · rw [startTag?, if_pos hu, Option.some.injEq] at h
      rw [← h]
      rfl
    · simp [startTag?, hu] at h
  | startDocument | endDocument | reset | endElement | characters | sourceIsCss => simp [startTag?] at h

namespace Violation

/-- The elements whose end tags commit a violation, for those that are not committed by start tags. -/
def endOf? : Violation → Option String
  | requiredSelectWithoutOption => some "select"
  | extentWithoutZoom | extentWithoutLocation | extentWithoutAxisPair | extentActionWithTemplates => some "extent"
  | _ => none

/-- What a start tag that commits a violation is like. -/
def CommittedBy (v : Violation) (t : StartTag) : Prop :=
  match v with
  | prohibitedAncestor element _ | redundantElementRole _ element => t.name = element
  | attributeOfOtherInputs name _ => t.name = "input" ∧ t.has name
  | impliedState name => t.has name
  | inputOutsideExtent | redundantInputRole _ _ | axisMissing | axisOfOtherUnits _ _ _ | relOfTileMatrix
  | shardWithoutList | shardWithValue => t.name = "input"
  | secondSelectedOption | requiredSelectWithoutPlaceholder => t.name = "option"
  | secondQueryLink | trefOutsideExtent | trefWithHref | hrefInExtent | projectionWithoutAlternate
  | linkInBody => t.name = "link"
  | unboundVariable name => name ∈ t.templateVariables
  | severalSelfStyles => t.isSelfStyle
  | activeDescendantElsewhere => (t.last? "aria-activedescendant").isSome
  | labelForNoControl => t.labelReferences ≠ []
  | formOfNoForm => t.formReferences ≠ []
  | listOfNoDatalist => t.listReferences ≠ []
  | requiredSelectWithoutOption | extentWithoutZoom | extentWithoutLocation | extentWithoutAxisPair
  | extentActionWithTemplates => False

/-- Whether a violation is about an event. -/
def Concerns (v : Violation) (e : Event) : Prop :=
  match v.endOf? with
  | some name => ∃ locator, e = .endElement locator xhtml name
  | none => ∃ t, startTag? e = some t ∧ v.CommittedBy t

/-- Whether a violation is found at a later event than the tag that it is about. -/
def isKept : Violation → Bool
  | requiredSelectWithoutPlaceholder | unboundVariable _ | activeDescendantElsewhere | severalSelfStyles
  | labelForNoControl | formOfNoForm | listOfNoDatalist => true
  | _ => false

private theorem concerns_of_startTag? {v : Violation} {e : Event} {t : StartTag} (hv : v.endOf? = none)
    (ht : startTag? e = some t) (h : v.CommittedBy t) : v.Concerns e := by
  unfold Concerns
  rw [hv]
  exact ⟨t, ht, h⟩

/-- Some event that the violation is about has the place. -/
def Attested (past : List Event) (v : Violation) (locator : Locator) : Prop :=
  ∃ e ∈ past, e.locator? = some locator ∧ v.Concerns e

theorem Attested.append {past : List Event} {v : Violation} {locator : Locator} (h : Attested past v locator)
    (later : List Event) : Attested (past ++ later) v locator := by
  obtain ⟨e, he, h⟩ := h
  exact ⟨e, List.mem_append_left later he, h⟩

private theorem attested_of_start (past : List Event) {e : Event} {t : StartTag} {v : Violation}
    (ht : startTag? e = some t) (hv : v.endOf? = none) (h : v.CommittedBy t) : Attested (past ++ [e]) v t.locator :=
  ⟨e, by simp, locator?_of_startTag? ht, concerns_of_startTag? hv ht h⟩

private theorem attested_of_end {v : Violation} {name : String} (locator : Locator) (hv : v.endOf? = some name) :
    Attested [.endElement locator xhtml name] v locator := by
  refine ⟨_, List.mem_cons_self, rfl, ?_⟩
  unfold Concerns
  rw [hv]
  exact ⟨locator, rfl⟩

end Violation

namespace Rules

open Violation (Attested attested_of_start attested_of_end)

/-- If the notice is a violation, which the event finds, its place is that of an event that it is about: of this one, or
of one of the past if it has been kept. -/
def Notice.Attested (past : List Event) (e : Event) : Notice → Prop
  | violation v locator => Violation.Attested (if v.isKept then past else [e]) v locator
  | styleAttribute .. | stylesheet .. => True

private theorem Notice.Attested.cons {past : List Event} {e : Event} {n : Notice} (h : n.Attested past e)
    (first : Event) :
    n.Attested (first :: past) e := by
  cases n with
  | violation v locator =>
    obtain ⟨e', he', h⟩ := h
    refine ⟨e', ?_, h⟩
    by_cases hkept : v.isKept
    · rw [if_pos hkept] at he' ⊢
      exact List.mem_cons_of_mem first he'
    · rw [if_neg hkept] at he' ⊢
      exact he'
  | styleAttribute | stylesheet => trivial

/-- What an open element has been told, and its own place, bear on options that have started. -/
structure Frame.Documented (past : List Event) (f : Frame) : Prop where
  own : f.name = some "option" → Attested past .requiredSelectWithoutPlaceholder f.locator
  told : ∀ locator, f.options.nonEmpty = some locator → Attested past .requiredSelectWithoutPlaceholder locator

/-- All places that are kept for later are those of tags that the violations in question are about. -/
structure State.Documented (past : List Event) (s : State) : Prop where
  controls : ∀ r ∈ s.controls.pending, Attested past .labelForNoControl r.locator
  forms : ∀ r ∈ s.forms.pending, Attested past .formOfNoForm r.locator
  lists : ∀ r ∈ s.lists.pending, Attested past .listOfNoDatalist r.locator
  inputs : ∀ r ∈ s.inputs.pending, Attested past (.unboundVariable r.name) r.locator
  selfStyles : ∀ locator ∈ s.selfStyles, Attested past .severalSelfStyles locator
  descendants : ∀ p ∈ s.pendingDescendants, Attested past .activeDescendantElsewhere p.2
  frames : ∀ f ∈ s.frames, f.Documented past

/-! ### Frames -/

namespace Frame.Documented

variable {past : List Event} {f : Frame}

theorem append (h : f.Documented past) (later : List Event) : f.Documented (past ++ later) :=
  ⟨fun hn => (h.own hn).append later, fun locator hl => (h.told locator hl).append later⟩

/-- Only what the frame has been told about its options matters. -/
private theorem of_eq {g : Frame} (h : f.Documented past) (hbare : g.bare = f.bare)
    (htold : g.options.nonEmpty = f.options.nonEmpty) : g.Documented past := by
  have hname : g.bare.name = f.bare.name := by rw [hbare]
  have hlocator : g.bare.locator = f.bare.locator := by rw [hbare]
  constructor
  · show g.bare.name = _ → Attested past _ g.bare.locator
    rw [hname, hlocator]
    exact h.own
  · rw [htold]
    exact h.told

private theorem collect (h : f.Documented past) (text : String) : (f.collect text).Documented past := by
  refine h.of_eq (f.bare_collect text) ?_
  unfold Frame.collect
  split
  · rfl
  · rfl

private theorem noteChild {t : StartTag} (h : f.Documented past)
    (ht : t.name = "option" → Attested past .requiredSelectWithoutPlaceholder t.locator) :
    (State.noteChild t f).Documented past := by
  have hbare := Frame.bare_noteChild t f
  refine ⟨(h.of_eq (g := { State.noteChild t f with options := f.options }) hbare rfl).own, ?_⟩
  show ∀ locator, (noteOption t f).options.nonEmpty = some locator → _
  unfold noteOption
  split
  · rename_i hoption
    rw [Bool.and_eq_true, decide_eq_true_eq] at hoption
    split
    · exact h.told
    · split
      · exact h.told
      · intro locator hlocator
        rw [← Option.some.inj hlocator]
        exact ht hoption.1
  · exact h.told

private theorem noteOptionEnd {option : Frame} (h : f.Documented past)
    (ho : Attested past .requiredSelectWithoutPlaceholder option.locator) :
    (noteOptionEnd option f).Documented past := by
  have hbare := Frame.bare_noteOptionEnd option f
  refine ⟨(h.of_eq (g := { Rules.noteOptionEnd option f with options := f.options }) hbare rfl).own, ?_⟩
  unfold Rules.noteOptionEnd
  split
  · exact h.told
  · dsimp only
    split
    · intro locator hlocator
      rw [← Option.some.inj hlocator]
      exact ho
    · exact h.told

private theorem noteSelected {frames : List Frame} (h : ∀ f ∈ frames, f.Documented past) :
    ∀ f ∈ noteSelected frames, f.Documented past := by
  induction frames with
  | nil => exact h
  | cons g outer ih =>
    have hg := h g List.mem_cons_self
    have houter : ∀ f ∈ outer, f.Documented past := fun f hf => h f (List.mem_cons_of_mem g hf)
    unfold Rules.noteSelected
    split
    · intro f hf
      rcases List.mem_cons.1 hf with rfl | hf
      · exact hg.of_eq rfl rfl
      · exact houter f hf
    · intro f hf
      rcases List.mem_cons.1 hf with rfl | hf
      · exact hg
      · exact ih houter f hf

private theorem modifyHead {note : Frame → Frame} {frames : List Frame} (h : ∀ f ∈ frames, f.Documented past)
    (hnote : ∀ f, f.Documented past → (note f).Documented past) : ∀ f ∈ frames.modifyHead note, f.Documented past := by
  rcases frames with _ | ⟨g, outer⟩
  · exact h
  · intro f hf
    rcases List.mem_cons.1 hf with rfl | hf
    · exact hnote g (h g List.mem_cons_self)
    · exact h f (List.mem_cons_of_mem g hf)

end Frame.Documented

/-! ### States -/

namespace State

variable {past : List Event} {s : State}

private theorem Documented.clear (past : List Event) (s : State) : s.clear.Documented past := by
  constructor <;> exact fun _ h => absurd h List.not_mem_nil

theorem Documented.append (h : s.Documented past) (later : List Event) : s.Documented (past ++ later) where
  controls r hr := (h.controls r hr).append later
  forms r hr := (h.forms r hr).append later
  lists r hr := (h.lists r hr).append later
  inputs r hr := (h.inputs r hr).append later
  selfStyles locator hl := (h.selfStyles locator hl).append later
  descendants p hp := (h.descendants p hp).append later
  frames f hf := (h.frames f hf).append later

/-- The references of a start tag come after those that are there. -/
private theorem attested_refer {r : References} {names : List String} {references : List Reference}
    {v : Reference → Violation} {e : Event} {t : StartTag} (hold : ∀ p ∈ r.pending, Attested past (v p) p.locator)
    (ht : startTag? e = some t)
    (hnew : ∀ p ∈ references, p.locator = t.locator ∧ (v p).endOf? = none ∧ (v p).CommittedBy t) :
    ∀ p ∈ ((r.define names).refer references).pending, Attested (past ++ [e]) (v p) p.locator := by
  intro p hp
  rw [References.pending_refer, References.pending_define, List.mem_append] at hp
  rcases hp with hp | hp
  · exact (hold p hp).append [e]
  · obtain ⟨hlocator, hend, hv⟩ := hnew p hp
    rw [hlocator]
    exact attested_of_start past ht hend hv

private theorem locator_of_mem_map {t : StartTag} {names : List String} {p : Reference} (h : p ∈ names.map t.refer) :
    p.locator = t.locator ∧ p.name ∈ names := by
  obtain ⟨name, hname, rfl⟩ := List.mem_map.1 h
  exact ⟨rfl, hname⟩

private theorem locator_of_mem_references {t : StartTag} {condition : Prop} [Decidable condition] {names : List String}
    {p : Reference} (h : p ∈ if condition then names.map t.refer else []) : p.locator = t.locator := by
  split at h
  · exact (locator_of_mem_map h).1
  · simp at h

theorem Documented.start (h : s.Documented past) {e : Event} {t : StartTag} (ht : startTag? e = some t) :
    (s.start t).Documented (past ++ [e]) := by
  have hlater := h.append [e]
  constructor
  · exact attested_refer (v := fun _ => .labelForNoControl) h.controls ht fun p hp =>
      ⟨locator_of_mem_references hp, rfl, List.ne_nil_of_mem hp⟩
  · exact attested_refer (v := fun _ => .formOfNoForm) h.forms ht fun p hp =>
      ⟨locator_of_mem_references hp, rfl, List.ne_nil_of_mem hp⟩
  · exact attested_refer (v := fun _ => .listOfNoDatalist) h.lists ht fun p hp =>
      ⟨locator_of_mem_references hp, rfl, List.ne_nil_of_mem hp⟩
  · exact attested_refer (v := fun p => .unboundVariable p.name) h.inputs ht fun p hp =>
      ⟨(locator_of_mem_map hp).1, rfl, (locator_of_mem_map hp).2⟩
  · intro locator hl
    rcases List.mem_append.1 hl with hl | hl
    · exact hlater.selfStyles locator hl
    · split at hl
      · rename_i hself
        obtain rfl := List.mem_singleton.1 hl
        exact attested_of_start past ht rfl hself
      · simp at hl
  · intro p hp
    have hp : p ∈ s.pendingDescendantsAfter t := hp
    -- What is pending is what this tag adds, or else was pending before.
    unfold pendingDescendantsAfter at hp
    dsimp only at hp
    split at hp
    · rename_i hnames
      rw [Bool.and_eq_true] at hnames
      rcases List.mem_cons.1 hp with rfl | hp
      · exact attested_of_start past ht rfl hnames.1
      · exact hlater.descendants p (List.mem_filter.1 (List.mem_filter.1 hp).1).1
    · exact hlater.descendants p (List.mem_filter.1 hp).1
  · intro f hf
    rcases List.mem_cons.1 hf with rfl | hf
    · constructor
      · intro hname
        exact attested_of_start past ht rfl (Option.some.inj hname)
      · intro locator hl
        simp [frameOf] at hl
    · have hoption : t.name = "option" → Attested (past ++ [e]) .requiredSelectWithoutPlaceholder t.locator :=
        fun hn => attested_of_start past ht rfl hn
      refine Frame.Documented.modifyHead ?_ (fun f hf => hf.noteChild hoption) f hf
      split
      · exact Frame.Documented.noteSelected hlater.frames
      · exact hlater.frames

/-- An element that is ended under its own name. -/
theorem Documented.finish (h : s.Documented past) {f : Frame} {outer : List Frame} {uri name : String}
    (hf : s.frames = f :: outer) (hname : f.name = knownName (uri, name)) :
    (s.finish f outer uri name).Documented past where
  controls := h.controls
  forms := h.forms
  lists := h.lists
  inputs := by
    -- The end of an `extent` drops the references to inputs.
    show ∀ r ∈ (if uri = xhtml && name = "extent" then {} else s.inputs : References).pending, _
    split
    · simp
    · exact h.inputs
  selfStyles := h.selfStyles
  descendants p hp := h.descendants p (List.mem_filter.1 hp).1
  frames := by
    have houter : ∀ g ∈ outer, g.Documented past := fun g hg => h.frames g (hf ▸ List.mem_cons_of_mem f hg)
    show ∀ g ∈ framesAfterEnd f uri name outer, g.Documented past
    unfold framesAfterEnd
    split
    · rename_i hoption
      rw [Bool.and_eq_true, decide_eq_true_eq, decide_eq_true_eq] at hoption
      rw [hoption.1, hoption.2] at hname
      -- The parent is told the place of the `option`, whose frame has the name of the event.
      have hown := (h.frames f (hf ▸ List.mem_cons_self)).own (by rw [hname, knownName, if_pos rfl])
      exact Frame.Documented.modifyHead houter fun g hg => hg.noteOptionEnd hown
    · exact houter

/-! ### Notices -/

/-- A start tag commits what is not kept. -/
private theorem attested_violation {e : Event} {t : StartTag} {v : Violation} (ht : startTag? e = some t)
    (hv : v.endOf? = none) (hkept : v.isKept = false) (h : v.CommittedBy t) :
    (Notice.violation v t.locator).Attested past e := by
  rw [Notice.Attested, hkept]
  exact attested_of_start [] ht hv h

private theorem attested_of_maySay {e : Event} {t : StartTag} {n : Notice} (ht : startTag? e = some t)
    (h : t.MaySay n) : n.Attested past e := by
  cases h with
  | style => trivial
  | attr name types hn ha => exact attested_violation ht rfl rfl ⟨hn, ha⟩
  | state name ha => exact attested_violation ht rfl rfl ha
  | inputRole role inputType hn => exact attested_violation ht rfl rfl hn
  | elementRole role => exact attested_violation ht rfl rfl rfl
  | axis _ _ _ hn => exact attested_violation ht rfl rfl hn
  | option hn => exact attested_violation ht rfl rfl hn
  | input v hn hv | link v hn hv =>
    simp only [List.mem_cons, List.not_mem_nil, or_false] at hv
    rcases hv with rfl | rfl | rfl | rfl | rfl | rfl
    all_goals exact attested_violation ht rfl rfl hn

private theorem attested_startNotices {e : Event} {t : StartTag} (ht : startTag? e = some t) :
    ∀ n ∈ s.startNotices t, n.Attested past e := by
  intro n hn
  rw [startNotices_eq, List.mem_append, List.mem_append] at hn
  rcases hn with (hn | hn) | hn
  · obtain ⟨a, -, rfl⟩ := List.mem_map.1 hn
    exact attested_violation ht rfl rfl rfl
  · obtain ⟨hinput, rfl⟩ := StartTag.mem_noticeIf.1 hn
    simp only [Bool.and_eq_true, decide_eq_true_eq] at hinput
    exact attested_violation ht rfl rfl hinput.1
  · exact attested_of_maySay ht (maySay_of_mem_remarks hn)

private theorem attested_selectNotices {f : Frame} (h : f.Documented past) (locator : Locator) :
    ∀ n ∈ selectNotices f locator, n.Attested past (.endElement locator xhtml "select") := by
  intro n hn
  unfold selectNotices at hn
  split at hn
  · rcases List.mem_append.1 hn with hn | hn
    · split at hn
      · simp at hn
      · obtain rfl := List.mem_singleton.1 hn
        exact attested_of_end locator rfl
    · split at hn
      · rename_i option hoption
        obtain rfl := List.mem_singleton.1 hn
        exact h.told option hoption
      · simp at hn
  · simp at hn

private theorem attested_extentNotices (h : s.Documented past) (f : Frame) (locator : Locator) :
    ∀ n ∈ extentNotices s f locator, n.Attested past (.endElement locator xhtml "extent") := by
  intro n hn
  simp only [extentNotices, List.mem_append] at hn
  rcases hn with ((hn | hn) | hn) | hn
  · split at hn
    · simp at hn
    · obtain rfl := List.mem_singleton.1 hn
      exact attested_of_end locator rfl
  · split at hn
    · obtain rfl := List.mem_singleton.1 hn
      exact attested_of_end locator rfl
    · obtain ⟨system, -, rfl⟩ := List.mem_map.1 hn
      exact attested_of_end locator rfl
  · split at hn
    · obtain rfl := List.mem_singleton.1 hn
      exact attested_of_end locator rfl
    · simp at hn
  · obtain ⟨r, hr, rfl⟩ := List.mem_map.1 hn
    exact h.inputs r (List.mem_filter.1 hr).1

private theorem attested_elementNotices (h : s.Documented past) {f : Frame} (hf : f ∈ s.frames) (locator : Locator)
    (name : String) : ∀ n ∈ s.elementNotices f locator name, n.Attested past (.endElement locator xhtml name) := by
  unfold elementNotices
  split
  · rename_i hn
    rw [hn]
    exact attested_selectNotices (h.frames f hf) locator
  · split
    · intro n hn
      unfold styleNotices at hn
      dsimp only at hn
      split at hn
      · obtain rfl := List.mem_singleton.1 hn
        trivial
      · obtain rfl := List.mem_singleton.1 hn
        trivial
    · split
      · rename_i hn
        rw [hn]
        exact attested_extentNotices h f locator
      · simp

private theorem attested_endNotices (h : s.Documented past) {f : Frame} {outer : List Frame} (hf : f ∈ s.frames)
    (locator : Locator) (uri name : String) :
    ∀ n ∈ s.endNotices f outer locator uri name, n.Attested past (.endElement locator uri name) := by
  intro n hn
  rcases List.mem_append.1 hn with hn | hn
  · split at hn
    · rename_i hu
      rw [hu]
      exact attested_elementNotices h hf locator name n hn
    · simp at hn
  · obtain ⟨place, hplace, rfl⟩ := List.mem_map.1 hn
    have hmem : (outer.length, place) ∈ s.pendingDescendants := by
      obtain ⟨l₁, l₂, hl, -⟩ := List.lookup_eq_some_iff.1 (Option.mem_toList.1 hplace)
      rw [hl]
      simp
    exact h.descendants _ hmem

private theorem attested_documentNotices (h : s.Documented past) :
    ∀ n ∈ s.documentNotices, n.Attested past .endDocument := by
  intro n hn
  simp only [documentNotices, List.mem_append] at hn
  rcases hn with ((hn | hn) | hn) | hn
  · split at hn
    · obtain ⟨locator, hl, rfl⟩ := List.mem_map.1 hn
      exact h.selfStyles locator hl
    · simp at hn
  · obtain ⟨r, hr, rfl⟩ := List.mem_map.1 hn
    exact h.controls r (List.mem_filter.1 hr).1
  · obtain ⟨r, hr, rfl⟩ := List.mem_map.1 hn
    exact h.forms r (List.mem_filter.1 hr).1
  · obtain ⟨r, hr, rfl⟩ := List.mem_map.1 hn
    exact h.lists r (List.mem_filter.1 hr).1

/-! ### Runs -/

/-- A properly nested event is attested, and leaves a documented state. -/
theorem Documented.next {opened opened' : List ElementName} {e : Event} (h : s.Documented past)
    (hnames : s.frames.map (·.name) = opened.map knownName) (he : Event.nest? opened e = some opened') :
    (s.next e).Documented (past ++ [e]) ∧ ∀ n ∈ s.notices e, n.Attested past e := by
  have hlater := h.append [e]
  cases e with
  | startElement locator uri name attributes =>
    by_cases hu : uri = xhtml
    · subst hu
      have ht : startTag? (.startElement locator xhtml name attributes) = some ⟨locator, name, attributes⟩ :=
        startTag?_startElement locator name attributes
      rw [next_start s ⟨locator, name, attributes⟩, notices_start s ⟨locator, name, attributes⟩]
      exact ⟨h.start ht, attested_startNotices ht⟩
    · rw [next_startOther s locator name attributes hu]
      constructor
      · refine { hlater with frames := ?_ }
        intro f hf
        rcases List.mem_cons.1 hf with rfl | hf
        · exact ⟨by simp, by simp⟩
        · exact hlater.frames f hf
      · simp [notices, hu]
  | endElement locator uri name =>
    -- Nesting makes this the end of the innermost element under its own name.
    obtain rfl := Event.eq_cons_of_nest?_endElement he
    rcases hf : s.frames with _ | ⟨f, outer⟩
    · simp [hf] at hnames
    · have hname : f.name = knownName (uri, name) := by
        rw [hf, List.map_cons, List.map_cons] at hnames
        exact (List.cons.inj hnames).1
      rw [next_end_cons hf]
      refine ⟨hlater.finish hf hname, ?_⟩
      simp only [notices, hf]
      exact attested_endNotices h (hf ▸ List.mem_cons_self) locator uri name
  | characters text =>
    refine ⟨{ hlater with frames := ?_ }, by simp [notices]⟩
    exact Frame.Documented.modifyHead hlater.frames fun f hf => hf.collect text
  | startDocument | endDocument | reset | sourceIsCss => simp [Event.nest?] at he

/-- Along properly nested events all that is kept is documented, and the frames go by the names of the open elements. -/
theorem Documented.run {opened opened' : List ElementName} {events : List Event} (h : s.Documented past)
    (hnames : s.frames.map (·.name) = opened.map knownName) (he : Event.nestAll? opened events = some opened') :
    (s.run events).Documented (past ++ events) ∧ (s.run events).frames.map (·.name) = opened'.map knownName := by
  induction events generalizing s past opened with
  | nil =>
    obtain rfl := Option.some.inj he
    exact ⟨by simpa using h, hnames⟩
  | cons e events ih =>
    obtain ⟨between, hfirst, hrest⟩ := Event.nestAll?_eq_of_cons he
    -- The names of the frames are carried along, because an end is attested under the name of the start only.
    have hbetween := names_next hnames e
    rw [Event.track_of_nest? hfirst] at hbetween
    obtain ⟨hrun, hopened⟩ := ih (h.next hnames hfirst).1 hbetween hrest
    rw [List.append_assoc, List.singleton_append] at hrun
    exact ⟨hrun, hopened⟩

/-- What is said along a run is said at one of its events. -/
private theorem exists_of_mem_runNotices {events : List Event} {n : Notice} (h : n ∈ s.runNotices events) :
    ∃ past e later, events = past ++ e :: later ∧ n ∈ (s.run past).notices e := by
  induction events generalizing s with
  | nil => simp at h
  | cons e events ih =>
    rcases List.mem_append.1 h with h | h
    · exact ⟨[], e, events, rfl, h⟩
    · obtain ⟨past, e', later, rfl, hn⟩ := ih h
      exact ⟨e :: past, e', later, rfl, hn⟩

/-- Every violation that a document, or a part of it from its start, has is reported at the place of the event that
finds it, or of an earlier one, and it is about this event. -/
theorem attested_of_mem_runNotices (s : State) {body : List Event} {opened : List ElementName} {events : List Event}
    (hbody : Event.nestAll? [] body = some opened) (hevents : events <+: .startDocument :: body ++ [.endDocument])
    {n : Notice} (hn : n ∈ s.runNotices events) :
    ∃ past e later, events = past ++ e :: later ∧ n ∈ (s.run past).notices e ∧ n.Attested past e := by
  obtain ⟨past, e, later, rfl, hsaid⟩ := exists_of_mem_runNotices hn
  refine ⟨past, e, later, rfl, hsaid, ?_⟩
  rcases past with _ | ⟨first, past⟩
  · obtain rfl : e = .startDocument := (List.cons_prefix_cons.1 hevents).1
    simp [notices] at hsaid
  · obtain ⟨rfl, hprefix⟩ := List.cons_prefix_cons.1 hevents
    have hsaid : n ∈ (s.clear.run past).notices e := hsaid
    have hfirst : past ++ [e] <+: body ++ [.endDocument] :=
      ((List.prefix_append_right_inj past).2 ⟨later, rfl⟩).trans hprefix
    refine Notice.Attested.cons ?_ .startDocument
    -- Either the event is the end of the document, or it is one of the content.
    rcases List.prefix_concat_iff.1 hfirst with hlast | ⟨rest, rfl⟩
    · obtain ⟨rfl, he⟩ := List.append_inj' hlast rfl
      obtain rfl : e = .endDocument := List.singleton_inj.1 he
      obtain ⟨hrun, -⟩ := (Documented.clear [] s).run rfl hbody
      exact attested_documentNotices hrun n hsaid
    · rw [List.append_assoc] at hbody
      obtain ⟨between, hbetween, hlater⟩ := Event.nestAll?_eq_of_append hbody
      obtain ⟨next, hnext, -⟩ := Event.nestAll?_eq_of_cons hlater
      obtain ⟨hrun, hnames⟩ := (Documented.clear [] s).run rfl hbetween
      exact (hrun.next hnames hnext).2 n hsaid

end State

end Rules

end MapMarkup
