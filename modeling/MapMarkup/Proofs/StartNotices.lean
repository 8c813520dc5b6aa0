import MapMarkup.Rules.Transition

/-!
# What may be said about a start tag

Of the notices on a start tag those on the place of its element come first. `StartTag.MaySay` lists what else may come,
each with what it says about the tag (`State.maySay_of_mem_remarks`), so that nobody has to go through the rules again.
-/

namespace MapMarkup.Rules

open Vocabulary

/-- What the rules on a start tag may say, apart from those on the place of its element. -/
inductive StartTag.MaySay (t : StartTag) : Notice → Prop
  | style (css : String) : MaySay t (.styleAttribute css t.locator)
  | attr (name : String) (types : List String) (hn : t.name = "input") (ha : t.has name) :
    MaySay t (.violation (.attributeOfOtherInputs name types) t.locator)
  | state (name : String) (ha : t.has name) : MaySay t (.violation (.impliedState name) t.locator)
  | inputRole (role inputType : String) (hn : t.name = "input") :
    MaySay t (.violation (.redundantInputRole role inputType) t.locator)
  | elementRole (role : String) : MaySay t (.violation (.redundantElementRole role t.name) t.locator)
  | axis (axis units : String) (axes : List String) (hn : t.name = "input") :
    MaySay t (.violation (.axisOfOtherUnits axis units axes) t.locator)
  | input (v : Violation) (hn : t.name = "input")
    (hv : v ∈ [.axisMissing, .relOfTileMatrix, .shardWithoutList, .shardWithValue]) :
    MaySay t (.violation v t.locator)
  | link (v : Violation) (hn : t.name = "link")
    (hv : v ∈ [.secondQueryLink, .trefOutsideExtent, .trefWithHref, .hrefInExtent, .projectionWithoutAlternate,
      .linkInBody]) : MaySay t (.violation v t.locator)
  | option (hn : t.name = "option") : MaySay t (.violation .secondSelectedOption t.locator)

namespace StartTag

variable {t : StartTag} {n : Notice}

private theorem has_of_mem {a : Attribute} (ha : a ∈ t.attributes) (hu : a.uri = "") : t.has a.name := by
  have hfound : (t.attributes.find? fun b => b.name = a.name && b.uri = "").isSome := by
    rw [List.find?_isSome]
    exact ⟨a, ha, by simp [hu]⟩
  rw [has, Attributes.has, Attributes.get?, Option.isSome_map]
  exact hfound

theorem name_of_isInput {inputType : String} (h : t.isInput inputType) : t.name = "input" := by
  unfold isInput inputType? at h
  split at h
  · assumption
  · simp at h

theorem mem_noticeIf {violated : Bool} {v : Violation} :
    n ∈ noticeIf t violated v ↔ violated = true ∧ n = .violation v t.locator := by
  unfold noticeIf
  cases violated <;> simp

private theorem maySay_of_mem_attributeNotices {a : Attribute} (ha : a ∈ t.attributes) (h : n ∈ t.attributeNotices a) :
    t.MaySay n := by
  unfold attributeNotices at h
  split at h
  · simp at h
  rename_i hu
  have hhas : t.has a.name := has_of_mem ha (by simpa using hu)
  split at h
  · obtain rfl := List.mem_singleton.1 h
    exact .style a.value
  split at h
  · simp at h
  split at h
  · rename_i types htypes
    have hinput : t.name = "input" := by
      split at htypes
      · assumption
      · simp at htypes
    unfold inputTypeNotices at h
    split at h
    · simp at h
    · obtain rfl := List.mem_singleton.1 h
      exact .attr a.name (sorted types) hinput hhas
  · unfold stateNotices at h
    split at h
    · obtain rfl := List.mem_singleton.1 h
      exact .state a.name hhas
    · simp at h

private theorem maySay_of_mem_roleNotices (h : n ∈ t.roleNotices) : t.MaySay n := by
  unfold roleNotices at h
  split at h
  · simp at h
  dsimp only at h
  split at h
  · rename_i role _ inputType htype
    split at h
    · obtain rfl := List.mem_singleton.1 h
      exact .inputRole _ inputType (name_of_isInput (by simpa [isInput] using htype))
    · simp at h
  · split at h
    · obtain rfl := List.mem_singleton.1 h
      exact .elementRole _
    · simp at h

private theorem maySay_of_mem_axisNotices (hn : t.name = "input") (h : n ∈ t.axisNotices) : t.MaySay n := by
  unfold axisNotices at h
  split at h
  · obtain rfl := List.mem_singleton.1 h
    exact .input _ hn (by simp)
  split at h
  · split at h
    · simp at h
    · obtain rfl := List.mem_singleton.1 h
      exact .axis _ _ _ hn
  · simp at h

private theorem maySay_of_mem_locationNotices (hn : t.name = "input") (h : n ∈ t.locationNotices) : t.MaySay n := by
  unfold locationNotices at h
  rcases List.mem_append.1 h with h | h
  · exact maySay_of_mem_axisNotices hn h
  · split at h
    · obtain rfl := List.mem_singleton.1 h
      exact .input _ hn (by simp)
    · simp at h

private theorem maySay_of_mem_shardNotices (hn : t.name = "input") (h : n ∈ t.shardNotices) : t.MaySay n := by
  unfold shardNotices at h
  rcases List.mem_append.1 h with h | h
  · split at h
    · simp at h
    · obtain rfl := List.mem_singleton.1 h
      exact .input _ hn (by simp)
  · split at h
    · obtain rfl := List.mem_singleton.1 h
      exact .input _ hn (by simp)
    · simp at h

private theorem maySay_of_mem_inputNotices (h : n ∈ t.inputNotices) : t.MaySay n := by
  unfold inputNotices at h
  split at h
  · rename_i hi
    exact maySay_of_mem_locationNotices (name_of_isInput hi) h
  split at h
  · rename_i hi
    rw [isShard, Bool.and_eq_true] at hi
    exact maySay_of_mem_shardNotices (name_of_isInput hi.1) h
  · simp at h

private theorem maySay_of_mem_linkNotices {s : State} (hn : t.name = "link") (h : n ∈ linkNotices s t) :
    t.MaySay n := by
  simp only [linkNotices, List.mem_append, mem_noticeIf] at h
  rcases h with ((((h | h) | h) | h) | h) | h
  all_goals
    rw [h.2]
    exact .link _ hn (by simp)

private theorem maySay_of_mem_optionNotices {s : State} (h : n ∈ optionNotices s t) : t.MaySay n := by
  unfold optionNotices at h
  split at h
  · rename_i hs
    simp only [State.countsSelected, isSelectedOption, Bool.and_eq_true, decide_eq_true_eq] at hs
    obtain rfl := List.mem_singleton.1 h
    exact .option hs.1.1.1
  · simp at h

end StartTag

namespace State

/-- The notices on a start tag, apart from those on the place of its element. -/
def remarks (s : State) (t : StartTag) : List Notice :=
  t.attributes.flatMap t.attributeNotices ++ t.roleNotices ++ t.inputNotices ++
    (if t.name = "link" then linkNotices s t else []) ++ optionNotices s t

theorem startNotices_eq (s : State) (t : StartTag) :
    s.startNotices t = ((prohibitedAncestors t.name).filter s.ancestors.has).map
        (fun a => .violation (.prohibitedAncestor t.name a.name) t.locator) ++
      noticeIf t (t.name = "input" && !s.ancestors.has .extent) .inputOutsideExtent ++ s.remarks t := by
  simp only [startNotices, remarks, List.append_assoc]
  rfl

theorem maySay_of_mem_remarks {s : State} {t : StartTag} {n : Notice} (h : n ∈ s.remarks t) : t.MaySay n := by
  simp only [remarks, List.mem_append, List.mem_flatMap] at h
  rcases h with (((⟨a, ha, h⟩ | h) | h) | h) | h
  · exact StartTag.maySay_of_mem_attributeNotices ha h
  · exact StartTag.maySay_of_mem_roleNotices h
  · exact StartTag.maySay_of_mem_inputNotices h
  · split at h
    · rename_i hn
      exact StartTag.maySay_of_mem_linkNotices hn h
    · simp at h
  · exact StartTag.maySay_of_mem_optionNotices h

theorem notices_start (s : State) (t : StartTag) :
    s.notices (.startElement t.locator xhtml t.name t.attributes) = s.startNotices t := by
  simp only [notices, ↓reduceIte]

end State

end MapMarkup.Rules
