import MapMarkup.Proofs.Frames
import MapMarkup.Proofs.StartNotices

/-!
# What an element knows about its ancestors

The ancestors that matter are handed down from frame to frame and are never looked up. They are those that are there
all the same (`Informed`), as every event keeps the frames informed (`State.informed_next`). So where an element may
not stand is decided by the elements that are open, however far away they are (`State.ancestors_run`).
-/

namespace MapMarkup

open Vocabulary

private theorem Vocabulary.Ancestor.ofName?_eq_some_iff {name : String} {a : Ancestor} :
    Ancestor.ofName? name = some a ↔ a.name = name := by
  constructor
  · intro h
    simpa using List.find?_some h
  · rintro rfl
    cases a <;> rfl

namespace Rules

private theorem Frame.isNamed_iff {f : Frame} {name : String} : f.isNamed name = true ↔ f.name = some name := by
  simp [isNamed]

private theorem Frame.has_childAncestors (f : Frame) (a : Ancestor) :
    f.childAncestors.has a = (f.isNamed a.name || f.ancestors.has a) := by
  unfold childAncestors
  rcases hn : f.name.bind Ancestor.ofName? with _ | b
  · have hname : f.isNamed a.name = false := by
      rw [Bool.eq_false_iff, ne_eq, isNamed_iff]
      intro hf
      rw [hf, Option.bind_some, Ancestor.ofName?_eq_some_iff.2 rfl] at hn
      simp at hn
    rw [hname, Bool.false_or]
  · obtain ⟨name, hf, hb⟩ := Option.bind_eq_some_iff.1 hn
    have hname : f.isNamed a.name = decide (b = a) := by
      rw [Bool.eq_iff_iff, isNamed_iff, hf, Option.some.injEq, decide_eq_true_eq, eq_comm,
        ← Ancestor.ofName?_eq_some_iff, hb, Option.some.injEq]
    rw [hname]
    exact Ancestors.has_insert f.ancestors b a

/-- Each frame knows which of the ancestors that matter its element has. -/
def Informed : List Frame → Prop
  | [] => True
  | f :: outer => (∀ a, f.ancestors.has a = outer.any (·.isNamed a.name)) ∧ Informed outer

private theorem informed_map_bare (frames : List Frame) : Informed (frames.map Frame.bare) ↔ Informed frames := by
  induction frames with
  | nil => rfl
  | cons f outer ih =>
    simp only [List.map_cons, Informed, ih, List.any_map]
    rfl

/-- The ancestors of the element at a depth are the elements at smaller depths. -/
private theorem Informed.has_iff {frames : List Frame} (h : Informed frames) {k : Nat} {f : Frame}
    (hf : frames.reverse[k]? = some f) (a : Ancestor) :
    f.ancestors.has a = true ↔ ∃ j < k, ∃ g, frames.reverse[j]? = some g ∧ g.name = some a.name := by
  induction frames with
  | nil => simp at hf
  | cons e outer ih =>
    rw [List.reverse_cons] at hf ⊢
    have hlength : outer.reverse.length = outer.length := List.length_reverse
    have houter : ∀ j < outer.length, (outer.reverse ++ [e])[j]? = outer.reverse[j]? := by
      intro j hj
      exact List.getElem?_append_left (by omega)
    have hk : k < outer.length + 1 := by
      have := List.getElem?_eq_some_iff.1 hf
      simpa using this.1
    rcases Nat.lt_or_eq_of_le (Nat.lt_succ_iff.1 hk) with hlt | rfl
    · rw [houter k hlt] at hf
      rw [ih h.2 hf]
      constructor
      · rintro ⟨j, hj, g, hg, hn⟩
        exact ⟨j, hj, g, by rw [houter j (by omega), hg], hn⟩
      · rintro ⟨j, hj, g, hg, hn⟩
        exact ⟨j, hj, g, by rw [← houter j (by omega), hg], hn⟩
    · -- The innermost element has all others around it.
      obtain rfl : e = f := by
        rw [List.getElem?_append_right (by omega)] at hf
        simpa using hf
      rw [h.1 a, List.any_eq_true]
      constructor
      · rintro ⟨g, hg, hn⟩
        obtain ⟨j, hj⟩ := List.mem_iff_getElem?.1 (List.mem_reverse.2 hg)
        have hjlt : j < outer.length := by
          have := (List.getElem?_eq_some_iff.1 hj).1
          omega
        exact ⟨j, hjlt, g, by rw [houter j hjlt, hj], Frame.isNamed_iff.1 hn⟩
      · rintro ⟨j, hj, g, hg, hn⟩
        rw [houter j hj] at hg
        exact ⟨g, List.mem_reverse.1 (List.mem_of_getElem? hg), Frame.isNamed_iff.2 hn⟩

/-- Whether a notice is about the place of an element among its ancestors. -/
def Notice.isAboutPlace : Notice → Bool
  | violation (.prohibitedAncestor _ _) _ | violation .inputOutsideExtent _ => true
  | _ => false

private theorem StartTag.MaySay.isAboutPlace_eq_false {t : StartTag} {n : Notice} (h : t.MaySay n) :
    n.isAboutPlace = false := by
  cases h with
  | style | attr | state | inputRole | elementRole | axis | option => rfl
  | input v hn hv | link v hn hv =>
    simp only [List.mem_cons, List.not_mem_nil, or_false] at hv
    rcases hv with rfl | rfl | rfl | rfl | rfl | rfl
    all_goals rfl

/-- What a start tag says about the place of its element: an `extent` must not stand in another one, and an `input`
must stand in one. -/
private theorem State.filter_startNotices (s : State) (t : StartTag) :
    (s.startNotices t).filter Notice.isAboutPlace =
      if t.name = "extent" ∧ s.ancestors.has .extent then [.violation (.prohibitedAncestor "extent" "extent") t.locator]
      else if t.name = "input" ∧ ¬s.ancestors.has .extent then [.violation .inputOutsideExtent t.locator]
      else [] := by
  have hremarks : (s.remarks t).filter Notice.isAboutPlace = [] := by
    rw [List.filter_eq_nil_iff]
    intro n hn
    rw [(maySay_of_mem_remarks hn).isAboutPlace_eq_false]
    exact Bool.false_ne_true
  rw [startNotices_eq, List.filter_append, hremarks, List.append_nil]
  by_cases hn : t.name = "extent"
  · rcases Bool.eq_false_or_eq_true (s.ancestors.has .extent) with hin | hin
    · simp [hn, hin, prohibitedAncestors, noticeIf, Notice.isAboutPlace, Ancestor.name]
    · simp [hn, hin, prohibitedAncestors, noticeIf]
  · rcases Bool.eq_false_or_eq_true (s.ancestors.has .extent) with hin | hin
    · simp [hn, hin, prohibitedAncestors, noticeIf]
    · by_cases hi : t.name = "input"
      · simp [hi, hin, prohibitedAncestors, noticeIf, Notice.isAboutPlace]
      · simp [hn, hi, prohibitedAncestors, noticeIf]

namespace State

private theorem has_ancestors {s : State} (h : Informed s.frames) (a : Ancestor) :
    s.ancestors.has a = s.frames.any (·.isNamed a.name) := by
  unfold ancestors parent?
  rcases hf : s.frames with _ | ⟨f, outer⟩
  · rw [List.head?_nil, List.any_nil]
    exact Ancestors.has_empty a
  · rw [hf] at h
    rw [List.head?_cons, List.any_cons]
    show f.childAncestors.has a = _
    rw [Frame.has_childAncestors, h.1]

/-- Whatever comes next, the frames stay informed. -/
theorem informed_next {s : State} (h : Informed s.frames) (e : Event) : Informed (s.next e).frames := by
  rw [← informed_map_bare, bareFrames_next]
  have hbare : Informed (s.frames.map Frame.bare) := (informed_map_bare s.frames).2 h
  cases e with
  | startDocument | endDocument => trivial
  | reset | characters | sourceIsCss => exact hbare
  | startElement locator uri name attributes =>
    refine ⟨fun a => ?_, hbare⟩
    rw [ancestors_bareFrameOf, has_ancestors h, List.any_map]
    rfl
  | endElement locator uri name =>
    show Informed (s.frames.map Frame.bare).tail
    rcases hf : s.frames with _ | ⟨f, outer⟩
    · trivial
    · rw [hf] at hbare
      exact hbare.2

private theorem informed_run {s : State} (h : Informed s.frames) (events : List Event) :
    Informed (s.run events).frames := by
  induction events generalizing s with
  | nil => exact h
  | cons e events ih => exact ih (informed_next h e)

/-- After any events each frame knows which of the ancestors that matter its element has, in the sense of the events:
the frames are those of the open elements. So an `extent` is refused, once, if and only if an `extent` is open, however
far away, and an `input` if and only if none is. -/
theorem ancestors_run (sourceIsCss : Bool) (events : List Event) :
    let s := ({ sourceIsCss } : State).run events
    let opened := Event.trackAll [] events
    s.frames.map (·.name) = opened.map knownName ∧
    (∀ k f, s.frameAt? k = some f → ∀ a : Ancestor,
      f.ancestors.has a = true ↔ ∃ j < k, ∃ g, s.frameAt? j = some g ∧ g.name = some a.name) ∧
    ∀ locator name attributes,
      (s.notices (.startElement locator xhtml name attributes)).filter Notice.isAboutPlace =
        if name = "extent" ∧ (xhtml, "extent") ∈ opened then
          [.violation (.prohibitedAncestor "extent" "extent") locator]
        else if name = "input" ∧ (xhtml, "extent") ∉ opened then [.violation .inputOutsideExtent locator]
        else [] := by
  intro s opened
  have hnames : s.frames.map (·.name) = opened.map knownName :=
    @names_run { sourceIsCss } [] rfl events
  have hinformed : Informed s.frames := @informed_run { sourceIsCss } trivial events
  refine ⟨hnames, fun k f hf a => hinformed.has_iff hf a, ?_⟩
  intro locator name attributes
  have hopen : s.ancestors.has .extent = true ↔ (xhtml, "extent") ∈ opened := by
    rw [has_ancestors hinformed, List.any_eq_true]
    calc (∃ f ∈ s.frames, f.isNamed "extent" = true)
      _ ↔ some "extent" ∈ s.frames.map (·.name) := by simp only [Frame.isNamed_iff, List.mem_map]
      _ ↔ (xhtml, "extent") ∈ opened := by simp only [hnames, List.mem_map, knownName_eq_some_iff, exists_eq_right]
  rw [notices_start s ⟨locator, name, attributes⟩, filter_startNotices]
  simp only [hopen]

/-- An `extent` stays open around the elements in it, whether these are in the vocabulary or not. -/
example : ({} : State).runNotices
    [.startElement ⟨1, 9, none, none⟩ xhtml "extent" [], .startElement ⟨2, 4, none, none⟩ "" "g" [],
      .startElement ⟨3, 9, none, none⟩ xhtml "extent" []] =
    [.violation (.prohibitedAncestor "extent" "extent") ⟨3, 9, none, none⟩] := by decide

end State

end Rules

end MapMarkup
