import MapMarkup.Proofs.DocumentReferences
import MapMarkup.Proofs.Journal
import MapMarkup.Proofs.OpenRecords

/-!
# Attributes that the type of an input does not allow

`StartTag.typeErrors` says from the table and from the attributes of a tag alone which of them are not allowed. The type
may stand before an attribute or after it, and no other element has attributes that are not allowed.

The scan of the attributes takes the first rule that fits the name of an attribute, and `list` has a rule of its own, as
shards need it. So the table is enforced for all its names but that one (`State.filter_notices_typeErrors`).
-/

namespace MapMarkup.Rules

open Vocabulary

namespace StartTag

/-- Whether the tag is that of an `input` of the type, which is `text` if no attribute says another. -/
def isOfType (t : StartTag) (type : String) : Bool :=
  t.name = "input" && if t.values "type" = [] then type = "text" else (t.values "type").any (·.toLower = type)

/-- What is wrong with an attribute of a tag, by the table: the type of the tag is none of those that allow it. -/
def typeError? (t : StartTag) (a : Attribute) : Option Notice :=
  match inputAttributes.lookup a.name with
  | none => none
  | some types =>
    if types.any t.isOfType then none
    else some (.violation (.attributeOfOtherInputs a.name (sorted types)) t.locator)

/-- What is wrong with the attributes of an `input`, in their order, if those with an exempt name are not judged. -/
def typeErrors (exempt : List String) (t : StartTag) : List Notice :=
  if t.name = "input" then
    (t.attributes.filter fun a => a.uri = "" && !exempt.contains a.name).filterMap t.typeError?
  else []

private theorem isOfType_eq {t : StartTag} (h : t.attributes.Distinct) (type : String) :
    t.isOfType type = t.isInput type := by
  unfold isOfType isInput inputType?
  rw [values_eq_get? h]
  by_cases hn : t.name = "input"
  · cases t.get? "type" with
    | none => simp [hn, eq_comm]
    | some value => simp [hn]
  · simp [hn]

end StartTag

/-- Whether a notice is about an attribute that the type of an input does not allow. -/
def Notice.isAboutType : Notice → Bool
  | violation (.attributeOfOtherInputs _ _) _ => true
  | _ => false

private theorem Notice.exists_of_isAboutType {n : Notice} (h : n.isAboutType) :
    ∃ name types locator, n = .violation (.attributeOfOtherInputs name types) locator := by
  unfold isAboutType at h
  split at h
  · exact ⟨_, _, _, rfl⟩
  · simp at h

namespace StartTag

variable (t : StartTag)

/-- Other rules have a name of their own for what they say. -/
private theorem isAboutType_of_mem_stateNotices {key : String} {n : Notice} (h : n ∈ t.stateNotices key) :
    n.isAboutType = false := by
  unfold stateNotices at h
  split at h
  · rw [List.mem_singleton.1 h]
    rfl
  · simp at h

/-- The scan says of an attribute of an `input` what the table says, unless a rule in front of the table fits. -/
private theorem filter_attributeNotices (ht : t.name = "input") (hd : t.attributes.Distinct) (a : Attribute) :
    (t.attributeNotices a).filter Notice.isAboutType =
      if a.uri = "" && !(["list"].contains a.name) then (t.typeError? a).toList else [] := by
  -- Of the names with rules of their own, the table has no other than `list`.
  have hown : ∀ key ∈ "style" :: (ownAttributes ++ ownAttributesByElement.map (·.2)), key ≠ "list" →
      inputAttributes.lookup key = none := by decide
  have hmem (h : isOwnAttribute t.name a.name) : a.name ∈ ownAttributes ++ ownAttributesByElement.map (·.2) := by
    rcases Bool.or_eq_true_iff.1 h with h | h
    · exact List.mem_append_left _ (List.contains_iff_mem.1 h)
    · exact List.mem_append_right _ (List.mem_map_of_mem (List.contains_iff_mem.1 h))
  have hjudged (h : inputAttributes.lookup a.name = none) : t.typeError? a = none := by rw [typeError?, h]
  have hcontains : ["list"].contains a.name = decide (a.name = "list") := by simp
  rw [hcontains, attributeNotices]
  by_cases hu : a.uri = ""
  · simp only [hu, ne_eq, not_true_eq_false, ↓reduceIte, decide_true, Bool.true_and]
    split
    · rename_i hstyle
      have hnone := hjudged (hown a.name (by simp [hstyle]) (by simp [hstyle]))
      simp [hnone, Notice.isAboutType]
    split
    · rename_i howned
      by_cases hlist : a.name = "list"
      · simp [hlist]
      · rw [hjudged (hown a.name (List.mem_cons_of_mem _ (hmem howned)) hlist)]
        simp
    · rename_i hother
      have hlist : a.name ≠ "list" := fun h => hother (by rw [h]; rfl)
      have htable : allowedInputTypes? a.name = inputAttributes.lookup a.name := rfl
      simp only [htable, typeError?, hlist, decide_false, Bool.not_false, ↓reduceIte]
      cases inputAttributes.lookup a.name with
      | none =>
        rw [Option.toList_none, List.filter_eq_nil_iff]
        intro n hn
        rw [t.isAboutType_of_mem_stateNotices hn]
        exact Bool.false_ne_true
      | some types =>
        have hany : types.any t.isInput = types.any t.isOfType :=
          congrArg types.any (funext fun type => (isOfType_eq hd type).symm)
        dsimp only
        rw [inputTypeNotices, hany]
        split
        · rfl
        · rfl
  · simp [hu]

end StartTag

namespace State

private theorem isAboutType_of_mem_linkNotices {s : State} {t : StartTag} {n : Notice} (h : n ∈ linkNotices s t) :
    n.isAboutType = false := by
  simp only [linkNotices, List.mem_append, StartTag.mem_noticeIf] at h
  rcases h with ((((h | h) | h) | h) | h) | h
  all_goals
    rw [h.2]
    rfl

/-- What is said about types at a start tag is said in the scan of its attributes. -/
private theorem filter_isAboutType_startNotices (s : State) (t : StartTag) :
    (s.startNotices t).filter Notice.isAboutType =
      t.attributes.flatMap fun a => (t.attributeNotices a).filter Notice.isAboutType := by
  have hother (notices : List Notice) (h : ∀ n ∈ notices, n.isAboutType = false) :
      notices.filter Notice.isAboutType = [] := by
    rw [List.filter_eq_nil_iff]
    intro n hn
    rw [h n hn]
    exact Bool.false_ne_true
  have hplace : (((prohibitedAncestors t.name).filter s.ancestors.has).map
      fun a => Notice.violation (.prohibitedAncestor t.name a.name) t.locator).filter Notice.isAboutType = [] := by
    refine hother _ fun n hn => ?_
    obtain ⟨a, -, rfl⟩ := List.mem_map.1 hn
    rfl
  have hextent : (noticeIf t (t.name = "input" && !s.ancestors.extent) .inputOutsideExtent).filter
      Notice.isAboutType = [] := by
    refine hother _ fun n hn => ?_
    rw [(StartTag.mem_noticeIf.1 hn).2]
    rfl
  have hrole : t.roleNotices.filter Notice.isAboutType = [] := by
    refine hother _ ?_
    unfold StartTag.roleNotices
    grind [Notice.isAboutType]
  have hinput : t.inputNotices.filter Notice.isAboutType = [] := by
    refine hother _ ?_
    unfold StartTag.inputNotices StartTag.locationNotices StartTag.axisNotices StartTag.shardNotices
    grind [Notice.isAboutType]
  have hlink : (if t.name = "link" then linkNotices s t else []).filter Notice.isAboutType = [] := by
    split
    · exact hother _ fun n hn => isAboutType_of_mem_linkNotices hn
    · rfl
  have hoption : (optionNotices s t).filter Notice.isAboutType = [] := by
    refine hother _ ?_
    unfold optionNotices
    grind [Notice.isAboutType]
  simp only [startNotices, List.filter_append, hplace, hextent, hrole, hinput, hlink, hoption, List.nil_append,
    List.append_nil, List.filter_flatMap]

private theorem filter_isAboutType_eq_nil {e : Event} (h : e.starts "input" = false) (s : State) :
    (s.notices e).filter Notice.isAboutType = [] := by
  rw [List.filter_eq_nil_iff]
  intro n hn habout
  obtain ⟨name, types, locator, rfl⟩ := Notice.exists_of_isAboutType habout
  have hsaid : e.starts "input" := isSaidAt_of_mem hn
  rw [h] at hsaid
  exact Bool.noConfusion hsaid

/-- In whatever state, an event says for each attribute of an `input` that the table does not allow for its type that it
is not allowed, once and in the order of the attributes, wherever the type stands among them; only `list` is not judged.
It says so of no other attribute and of no other element. -/
theorem filter_notices_typeErrors (s : State) (e : Event)
    (hd : ∀ t, startTag? e = some t → t.name = "input" → t.attributes.Distinct) :
    (s.notices e).filter Notice.isAboutType = (startTag? e).toList.flatMap (StartTag.typeErrors ["list"]) := by
  cases ht : startTag? e with
  | none =>
    have hstarts : e.starts "input" = false := by rw [Event.starts, ht]; rfl
    rw [filter_isAboutType_eq_nil hstarts, Option.toList_none, List.flatMap_nil]
  | some t =>
    rw [Option.toList_some, List.flatMap_singleton, StartTag.typeErrors]
    by_cases hn : t.name = "input"
    · obtain rfl := startTag?_eq_some_iff.1 ht
      have hscan := t.filter_attributeNotices hn (hd t ht hn)
      rw [if_pos hn, StartTag.event, notices_start, filter_isAboutType_startNotices]
      simp only [hscan]
      induction t.attributes with
      | nil => rfl
      | cons a attributes ih =>
        rw [List.flatMap_cons, ih, List.filter_cons]
        split
        · rw [List.filterMap_cons]
          cases t.typeError? a <;> rfl
        · rfl
    · have hstarts : e.starts "input" = false := by
        rw [Event.starts, ht]
        exact decide_eq_false hn
      rw [filter_isAboutType_eq_nil hstarts, if_neg hn]

/-- An input for a zoom level in an `extent`, with attributes that its type allows and that it does not allow, one of
another namespace, and a `list`. -/
def zoomInput : StartTag where
  locator := ⟨2, 40, none, none⟩
  name := "input"
  attributes := [⟨"", "max", "9", false⟩, ⟨"", "size", "3", false⟩, ⟨"", "type", "Zoom", false⟩,
    ⟨"", "axis", "x", false⟩, ⟨"u", "axis", "y", false⟩, ⟨"", "list", "a", false⟩]

theorem filter_notices_typeErrors_zoomInput :
    let s := ({} : State).run [.startDocument, .startElement ⟨1, 9, none, none⟩ xhtml "extent" []]
    zoomInput.attributes.Distinct ∧ (s.notices zoomInput.event).filter Notice.isAboutType =
      [.violation (.attributeOfOtherInputs "size"
          (StartTag.sorted ["text", "search", "url", "tel", "email", "password"])) ⟨2, 40, none, none⟩,
        .violation (.attributeOfOtherInputs "axis" (StartTag.sorted ["location"])) ⟨2, 40, none, none⟩] := by
  intro s
  have hdistinct : zoomInput.attributes.Distinct := by decide
  have hlower : "Zoom".toLower = "zoom" := by decide +kernel
  have htype : zoomInput.isOfType = fun type => decide ("zoom" = type) := by
    funext type
    simp [StartTag.isOfType, StartTag.values, zoomInput, hlower]
  have hsaid := filter_notices_typeErrors s zoomInput.event (by
    intro t ht _
    obtain rfl := Option.some.inj ((startTag?_eq_some_iff.2 rfl).symm.trans ht)
    exact hdistinct)
  have hjudged : zoomInput.typeErrors ["list"] = [⟨"", "max", "9", false⟩, ⟨"", "size", "3", false⟩,
      ⟨"", "type", "Zoom", false⟩, ⟨"", "axis", "x", false⟩].filterMap zoomInput.typeError? := by
    simp [StartTag.typeErrors, zoomInput]
  refine ⟨hdistinct, hsaid.trans ?_⟩
  rw [startTag?_eq_some_iff.2 rfl, Option.toList_some, List.flatMap_singleton, hjudged]
  simp only [List.filterMap_cons, StartTag.typeError?, htype]
  rfl

/-- A `list` is not judged, although the table does not have it for hidden inputs. -/
theorem filter_notices_ne_of_list :
    let s := ({} : State).run [.startDocument, .startElement ⟨1, 9, none, none⟩ xhtml "extent" []]
    let t : StartTag := ⟨⟨2, 40, none, none⟩, "input", .ofPairs [("type", "hidden"), ("list", "a")]⟩
    t.attributes.Distinct ∧ (s.notices t.event).filter Notice.isAboutType ≠ t.typeErrors [] := by
  decide +kernel

end State

end MapMarkup.Rules
