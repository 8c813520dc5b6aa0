import MapMarkup.Diagnostic.Collector
import MapMarkup.Proofs.Registration

/-!
# What the end of a document says

`documentErrors` says from the start tags of a document alone what is wrong with its references: which links name its
own style where at most one may, which labels are for no control, which elements belong to no form, and which shards
are in no list. It reads an attribute as the list of its values, so that it does not matter which of several attributes
of one name counts, and takes the IDs of the whole document, so that it does not matter where they are.

The end of the document says exactly this, in this order (`Checker.feedAll_endDocument`), provided that no tag has two
attributes of one name.
-/

namespace MapMarkup

/-- No two attributes have the same namespace and name. -/
abbrev Attributes.Distinct (attributes : Attributes) : Prop :=
  (attributes.map fun a => (a.uri, a.name)).Nodup

namespace Rules

open Vocabulary

namespace StartTag

/-- The values of the attributes in no namespace that have the given name. -/
def values (t : StartTag) (key : String) : List String :=
  (t.attributes.filter fun a => a.name = key && a.uri = "").map (·.value)

/-- Whether the tag is that of an `input` whose type is `hidden`. -/
def isHiddenInput (t : StartTag) : Bool :=
  t.name = "input" && (t.values "type").any fun type => type.toLower = "hidden"

/-- Whether the tag is that of a form control that a label may be for. -/
def isControl (t : StartTag) : Bool :=
  ["button", "meter", "output", "progress", "select", "textarea"].contains t.name ||
    (t.name = "input" && !t.isHiddenInput)

/-- Whether the tag is a link whose relations include both `self` and `style`. -/
def namesOwnStyle (t : StartTag) : Bool :=
  t.name = "link" && (t.values "rel").any fun rel =>
    (Text.words rel.toLower).contains "self" && (Text.words rel.toLower).contains "style"

/-- What the tag refers to by an attribute. -/
def referencesBy (t : StartTag) (key : String) : List Reference :=
  (t.values key).map t.refer

end StartTag

/-- The labels that are for no control of the document. -/
def strayLabels (tags : List StartTag) : List Reference :=
  dangling (fun t => if t.isControl then t.attributes.ids else [])
    (fun t => if t.name = "label" then t.referencesBy "for" else []) tags

/-- The elements that belong to no form of the document. -/
def strayFormMembers (tags : List StartTag) : List Reference :=
  dangling (fun t => if t.name = "form" then t.attributes.ids else [])
    (fun t => if formAssociated.contains t.name then t.referencesBy "form" else []) tags

/-- The shards that are in no list of the document. -/
def strayShards (tags : List StartTag) : List Reference :=
  dangling (fun t => if t.name = "datalist" then t.attributes.ids else [])
    (fun t => if t.isHiddenInput && t.values "shard" ≠ [] then t.referencesBy "list" else []) tags

/-- What is wrong with the references of a document, in the order in which its end says it. -/
def documentErrors (tags : List StartTag) : List (Violation × Locator) :=
  let ownStyles := tags.filter (·.namesOwnStyle)
  (if 2 ≤ ownStyles.length then ownStyles.map fun t => (.severalSelfStyles, t.locator) else []) ++
    (strayLabels tags).map (fun r => (.labelForNoControl, r.locator)) ++
    (strayFormMembers tags).map (fun r => (.formOfNoForm, r.locator)) ++
    (strayShards tags).map fun r => (.listOfNoDatalist, r.locator)

/-! ### Values of attributes -/

namespace StartTag

variable {t : StartTag}

/-- At most one attribute has a given name. -/
private theorem filter_attributes (h : t.attributes.Distinct) (key : String) :
    (t.attributes.filter fun a => a.name = key && a.uri = "") = [] ∨
    ∃ a, (t.attributes.filter fun a => a.name = key && a.uri = "") = [a] := by
  have hd := (List.filter_sublist (p := fun a : Attribute => a.name = key && a.uri = "")).map
    (fun a => (a.uri, a.name)) |>.nodup h
  have hp : ∀ a ∈ t.attributes.filter fun a => a.name = key && a.uri = "", a.name = key ∧ a.uri = "" := by
    simp
  rcases hl : t.attributes.filter fun a => a.name = key && a.uri = "" with _ | ⟨a, _ | ⟨b, rest⟩⟩
  · exact .inl hl
  · exact .inr ⟨a, hl⟩
  · -- Two attributes of this name would be one and the same to `Distinct`.
    rw [hl] at hd hp
    obtain ⟨ha, ha'⟩ := hp a (by simp)
    obtain ⟨hb, hb'⟩ := hp b (by simp)
    simp [ha, ha', hb, hb'] at hd

theorem values_eq_last? (h : t.attributes.Distinct) (key : String) : t.values key = (t.last? key).toList := by
  unfold values last? Attributes.last?
  rcases filter_attributes h key with hl | ⟨a, hl⟩
  · rw [hl]; rfl
  · rw [hl]; rfl

theorem values_eq_get? (h : t.attributes.Distinct) (key : String) : t.values key = (t.get? key).toList := by
  unfold values get? Attributes.get?
  rw [← List.head?_filter]
  rcases filter_attributes h key with hl | ⟨a, hl⟩
  · rw [hl]; rfl
  · rw [hl]; rfl

private theorem isHiddenInput_eq (h : t.attributes.Distinct) : t.isHiddenInput = t.isInput "hidden" := by
  unfold isHiddenInput isInput inputType?
  rw [values_eq_get? h]
  by_cases hn : t.name = "input"
  · cases ht : t.get? "type" <;> simp [hn]
  · simp [hn]

private theorem isShard_eq (h : t.attributes.Distinct) : t.isShard = (t.isHiddenInput && t.values "shard" ≠ []) := by
  unfold isShard has Attributes.has
  rw [isHiddenInput_eq h, values_eq_get? h]
  show _ = (_ && decide ((t.attributes.get? "" "shard").toList ≠ []))
  cases t.attributes.get? "" "shard" <;> simp

private theorem namesOwnStyle_eq (h : t.attributes.Distinct) : t.namesOwnStyle = t.isSelfStyle := by
  unfold namesOwnStyle isSelfStyle hasRelation relations
  rw [values_eq_get? h]
  cases t.get? "rel" <;> simp [Bool.and_assoc]

private theorem controlIds_eq (h : t.attributes.Distinct) :
    t.controlIds = if t.isControl then t.attributes.ids else [] := by
  have hc : (labelable.contains t.name && !t.isInput "hidden") = t.isControl := by
    unfold isControl
    rw [isHiddenInput_eq h]
    by_cases hn : t.name = "input"
    · simp [labelable, hn]
    · have hi : t.isInput "hidden" = false := by simp [isInput, inputType?, hn]
      simp [labelable, hn, hi]
  unfold controlIds
  rw [hc]

private theorem labelReferences_eq (h : t.attributes.Distinct) :
    t.labelReferences = if t.name = "label" then t.referencesBy "for" else [] := by
  unfold labelReferences referencesBy
  rw [values_eq_last? h]

private theorem formReferences_eq (h : t.attributes.Distinct) :
    t.formReferences = if formAssociated.contains t.name then t.referencesBy "form" else [] := by
  unfold formReferences referencesBy
  rw [values_eq_get? h]

private theorem listReferences_eq (h : t.attributes.Distinct) :
    t.listReferences = if t.isHiddenInput && t.values "shard" ≠ [] then t.referencesBy "list" else [] := by
  unfold listReferences referencesBy
  rw [values_eq_last? h "list", isShard_eq h]

end StartTag

/-! ### The end of a document -/

private theorem strayLabels_eq {tags : List StartTag} (h : ∀ t ∈ tags, t.attributes.Distinct) :
    dangling StartTag.controlIds StartTag.labelReferences tags = strayLabels tags :=
  dangling_congr (fun t ht => StartTag.controlIds_eq (h t ht)) fun t ht => StartTag.labelReferences_eq (h t ht)

private theorem strayFormMembers_eq {tags : List StartTag} (h : ∀ t ∈ tags, t.attributes.Distinct) :
    dangling (StartTag.idsOf "form") StartTag.formReferences tags = strayFormMembers tags :=
  dangling_congr (fun _ _ => rfl) fun t ht => StartTag.formReferences_eq (h t ht)

private theorem strayShards_eq {tags : List StartTag} (h : ∀ t ∈ tags, t.attributes.Distinct) :
    dangling (StartTag.idsOf "datalist") StartTag.listReferences tags = strayShards tags :=
  dangling_congr (fun _ _ => rfl) fun t ht => StartTag.listReferences_eq (h t ht)

private theorem level_of_mem_documentErrors {tags : List StartTag} {e : Violation × Locator}
    (h : e ∈ documentErrors tags) :
    e.1.level = .error := by
  simp only [documentErrors, List.mem_append, List.mem_map] at h
  rcases h with ((h | ⟨r, -, rfl⟩) | ⟨r, -, rfl⟩) | ⟨r, -, rfl⟩
  · split at h
    · obtain ⟨t, -, rfl⟩ := List.mem_map.1 h
      rfl
    · simp at h
  · rfl
  · rfl
  · rfl

namespace State

/-- After its content the end of a document says what is wrong with the references of the document. -/
private theorem documentNotices_run (s : State) {body : List Event} (hc : ∀ e ∈ body, e.isContent)
    (hd : ∀ t ∈ startTags body, t.attributes.Distinct) :
    (s.clear.run body).documentNotices = (documentErrors (startTags body)).map fun e => .violation e.1 e.2 := by
  have hself : (s.clear.run body).selfStyles = ((startTags body).filter (·.namesOwnStyle)).map (·.locator) := by
    rw [selfStyles_run s.clear hc, List.filter_congr fun t ht => (StartTag.namesOwnStyle_eq (hd t ht)).symm]
    rfl
  -- Each of the three parts is empty when the document starts, so that the start tags alone decide.
  unfold documentNotices documentErrors
  rw [registers_controls.unresolved_run rfl hc, registers_forms.unresolved_run rfl hc,
    registers_lists.unresolved_run rfl hc, strayLabels_eq hd, strayFormMembers_eq hd, strayShards_eq hd, hself]
  simp only [List.map_append, List.map_map, List.length_map, apply_ite, List.map_nil]
  rfl

end State

end Rules

namespace Checker

open Event (emptyElement)
open Rules (Notice documentErrors startTags)

variable {σ : Type} [Sink σ] {m : Type → Type} [Monad m] [LawfulMonad m]

private theorem foldlM_deliver_errors (css : CssParser m) (errors : List (Violation × Locator))
    (h : ∀ e ∈ errors, e.1.level = .error) (sink : σ) :
    (errors.map fun e => Notice.violation e.1 e.2).foldlM (Notice.deliver css) sink =
      pure (errors.foldl (fun sink e => Sink.error sink e.1.message e.2) sink) := by
  rw [foldlM_deliver_violations]
  refine congrArg pure (List.foldl_rel rfl fun e he sink sink' hsink => ?_)
  simp only [hsink, Sink.report, h e he]

/-- The end of a document reports what is wrong with the references of the document and nothing else, in the order of
`documentErrors`, and leaves no document behind. Whatever the checker was fed before does not count. -/
theorem feedAll_endDocument (css : CssParser m) (c : Checker σ) {body : List Event} (hc : ∀ e ∈ body, e.isContent)
    (hd : ∀ t ∈ startTags body, t.attributes.Distinct) :
    c.feedAll css (.startDocument :: body ++ [.endDocument]) = do
      let checked ← c.feedAll css (.startDocument :: body)
      return {
        state := checked.state.clear
        sink := (documentErrors (startTags body)).foldl (fun sink e => Sink.error sink e.1.message e.2)
          checked.sink } := by
  have hlast : (c.state.run (.startDocument :: body)).notices .endDocument =
      (documentErrors (startTags body)).map fun e => .violation e.1 e.2 :=
    c.state.documentNotices_run hc hd
  have hdeliver (sink : σ) := foldlM_deliver_errors css (documentErrors (startTags body))
    (fun _ => Rules.level_of_mem_documentErrors) sink
  rw [feedAll_eq, feedAll_eq, Rules.State.runNotices_append, List.foldlM_append,
    Rules.State.runNotices_cons _ .endDocument, hlast, Rules.State.runNotices_nil, List.append_nil,
    Rules.State.run_append]
  simp only [hdeliver, bind_pure_comp, Functor.map_map]
  rfl

/-- Two links to the document's own style, a label for a hidden input, which is a shard in no list, a label for a button,
which names a form that follows and has an ID by another attribute, and a label and a button without an ID. -/
def mixedReferences : List Event :=
  emptyElement 1 "link" [("rel", "Self STYLE")] ++
  emptyElement 2 "label" [("for", "a")] ++
  emptyElement 3 "input" [("type", "HIDDEN"), ("id", "a"), ("shard", ""), ("list", "d")] ++
  emptyElement 4 "button" [("id", "b"), ("form", "f")] ++
  emptyElement 5 "label" [("for", "b")] ++
  [.startElement ⟨6, 40, none, none⟩ Vocabulary.xhtml "form" [⟨"u", "key", "f", true⟩],
    .endElement ⟨6, 50, none, none⟩ Vocabulary.xhtml "form"] ++
  emptyElement 7 "link" [("rel", "style self")] ++
  emptyElement 8 "label" [("for", "")] ++
  emptyElement 9 "button" [("id", "")]

theorem feedAll_endDocument_mixedReferences :
    (∀ e ∈ mixedReferences, e.isContent) ∧ (∀ t ∈ startTags mixedReferences, t.attributes.Distinct) ∧
    (feedAll (m := Id) .none { sink := ({} : Collector) }
      (.startDocument :: mixedReferences ++ [.endDocument])).run.sink.diagnostics = [
        ⟨.error, Violation.inputOutsideExtent.message, ⟨3, 40, none, none⟩, none⟩,
        ⟨.error, Violation.severalSelfStyles.message, ⟨1, 40, none, none⟩, none⟩,
        ⟨.error, Violation.severalSelfStyles.message, ⟨7, 40, none, none⟩, none⟩,
        ⟨.error, Violation.labelForNoControl.message, ⟨2, 40, none, none⟩, none⟩,
        ⟨.error, Violation.labelForNoControl.message, ⟨8, 40, none, none⟩, none⟩,
        ⟨.error, Violation.listOfNoDatalist.message, ⟨3, 40, none, none⟩, none⟩] := by
  have hc : ∀ e ∈ mixedReferences, e.isContent := by decide
  have hd : ∀ t ∈ startTags mixedReferences, t.attributes.Distinct := by decide
  refine ⟨hc, hd, ?_⟩
  rw [feedAll_endDocument _ _ hc hd]
  decide +kernel

end Checker

end MapMarkup
