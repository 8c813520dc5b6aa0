import MapMarkup.Proofs.DocumentReferences
import MapMarkup.Proofs.Observation
import MapMarkup.Proofs.Readings

/-!
# The order of attributes

Attributes are looked at one after the other at a start tag, and looked up again by other attributes and rules. If no
two of them have the same namespace and name, their order is seen in the order of the diagnostics and in nothing else
(`Checker.observe_of_perm`). For two such tags (`StartTag.Reordered`) all look-ups are equal (`Reordered.readsAs`); what
is left is the walk along the attributes, in `State.startNotices` and in the IDs that are collected.
-/

namespace MapMarkup

private theorem eq_of_toList_perm {α : Type} {x y : Option α} (h : x.toList.Perm y.toList) : x = y := by
  simpa using congrArg List.head? (eq_of_perm h Option.length_toList_le)

namespace Rules

open Vocabulary

/-! ### Tags with the same attributes -/

/-- The tags differ in the order of their attributes only, of which no two have the same namespace and name. -/
structure StartTag.Reordered (t u : StartTag) : Prop where
  locator : t.locator = u.locator
  name : t.name = u.name
  attributes : t.attributes.Perm u.attributes
  distinct : t.attributes.Distinct

namespace StartTag.Reordered

variable {t u : StartTag} (h : t.Reordered u)

include h

private theorem distinct_right : u.attributes.Distinct :=
  (h.attributes.map _).nodup_iff.1 h.distinct

private theorem values_perm (key : String) : (t.values key).Perm (u.values key) :=
  (h.attributes.filter _).map _

private theorem get?_eq (key : String) : t.get? key = u.get? key := by
  have hvalues := h.values_perm key
  rw [values_eq_get? h.distinct, values_eq_get? h.distinct_right] at hvalues
  exact eq_of_toList_perm hvalues

private theorem last?_eq (key : String) : t.last? key = u.last? key := by
  have hvalues := h.values_perm key
  rw [values_eq_last? h.distinct, values_eq_last? h.distinct_right] at hvalues
  exact eq_of_toList_perm hvalues

/-- All look-ups give the same. -/
theorem readsAs : t.ReadsAs u where
  locator := h.locator
  name := h.name
  get?_eq key _ := h.get?_eq key
  last?_eq key _ := h.last?_eq key
  hasRelation_eq relation := by simp only [hasRelation, relations, h.get?_eq]
  rel_eq _ := h.get?_eq "rel"

private theorem ids_perm : t.attributes.ids.Perm u.attributes.ids :=
  (h.attributes.filter _).map _

end StartTag.Reordered

/-! ### What is known afterwards -/

/-- It does not matter in which order names are added. -/
private theorem References.define_perm (r : References) {names names' : List String} (h : names.Perm names') :
    r.define names = r.define names' := by
  have htargets : (r.define names).targets = (r.define names').targets := by
    refine Std.ExtTreeSet.ext_contains fun n => ?_
    rw [contains_define, contains_define, h.contains_eq]
  exact congrArg (References.mk r.pending) htargets

private theorem ite_perm {α : Type} (p : Prop) [Decidable p] {xs ys : List α} (h : xs.Perm ys) :
    (if p then xs else []).Perm (if p then ys else []) := by
  split
  · exact h
  · exact .refl []

namespace State

variable {t u : StartTag}

private theorem controlsAfter_of_reordered (s : State) (h : t.Reordered u) : s.controlsAfter t = s.controlsAfter u := by
  simp only [controlsAfter, h.name, h.locator, h.readsAs.isInput_eq, h.last?_eq]
  rw [References.define_perm s.controls (ite_perm _ h.ids_perm)]

private theorem formsAfter_of_reordered (s : State) (h : t.Reordered u) : s.formsAfter t = s.formsAfter u := by
  simp only [formsAfter, h.name, h.locator, h.get?_eq]
  rw [References.define_perm s.forms (ite_perm _ h.ids_perm)]

private theorem listsAfter_of_reordered (s : State) (h : t.Reordered u) : s.listsAfter t = s.listsAfter u := by
  simp only [listsAfter, h.name, h.locator, h.readsAs.isShard_eq, h.last?_eq]
  rw [References.define_perm s.lists (ite_perm _ h.ids_perm)]

private theorem pendingDescendantsAfter_of_reordered (s : State) (h : t.Reordered u) :
    s.pendingDescendantsAfter t = s.pendingDescendantsAfter u := by
  have hids : t.attributes.ids.contains = u.attributes.ids.contains := funext fun _ => h.ids_perm.contains_eq
  have howns : t.has "aria-owns" = u.has "aria-owns" := congrArg Option.isSome (h.get?_eq _)
  simp only [pendingDescendantsAfter, isSettledBy, hids, h.locator, h.last?_eq, howns]

/-- The state after a start tag does not depend on the order of its attributes. -/
private theorem start_of_reordered (s : State) (h : t.Reordered u) : s.start t = s.start u := by
  rw [start, start, h.readsAs.framesAfter_eq, s.controlsAfter_of_reordered h, s.formsAfter_of_reordered h,
    s.listsAfter_of_reordered h, h.readsAs.inputsAfter_eq, s.pendingDescendantsAfter_of_reordered h,
    h.readsAs.isSelfStyle_eq, h.locator, h.readsAs.isSingleSelect_eq]

/-- What is said about a start tag depends on the order of its attributes in its order only. -/
private theorem startNotices_perm (s : State) (h : t.Reordered u) : (s.startNotices t).Perm (s.startNotices u) := by
  have hattributes : (t.attributes.flatMap t.attributeNotices).Perm (u.attributes.flatMap u.attributeNotices) := by
    rw [h.readsAs.attributeNotices_eq]
    exact h.attributes.flatMap_right _
  simp only [startNotices, noticeIf, h.readsAs.roleNotices_eq, h.readsAs.inputNotices_eq, h.readsAs.linkNotices_eq,
    h.readsAs.optionNotices_eq, h.name, h.locator]
  exact ((((hattributes.append_left _).append_right _).append_right _).append_right _).append_right _

private theorem request?_of_attributeNotices (t : StartTag) (a : Attribute) :
    (t.attributeNotices a).filterMap Notice.request? =
      if a.name = "style" && a.uri = "" then [.styleAttribute a.value t.locator.line] else [] := by
  unfold StartTag.attributeNotices StartTag.inputTypeNotices StartTag.stateNotices
  grind [Notice.request?]

private theorem request?_of_noticeIf (t : StartTag) (violated : Bool) (v : Violation) :
    (noticeIf t violated v).filterMap Notice.request? = [] := by
  unfold noticeIf
  split
  · rfl
  · rfl

private theorem request?_of_roleNotices (t : StartTag) : t.roleNotices.filterMap Notice.request? = [] := by
  unfold StartTag.roleNotices
  grind [Notice.request?]

private theorem request?_of_inputNotices (t : StartTag) : t.inputNotices.filterMap Notice.request? = [] := by
  unfold StartTag.inputNotices StartTag.locationNotices StartTag.axisNotices StartTag.shardNotices
  grind [Notice.request?]

private theorem request?_of_linkNotices (s : State) (t : StartTag) :
    (linkNotices s t).filterMap Notice.request? = [] := by
  simp only [linkNotices, List.filterMap_append, request?_of_noticeIf, List.append_nil]

private theorem request?_of_optionNotices (s : State) (t : StartTag) :
    (optionNotices s t).filterMap Notice.request? = [] := by
  unfold optionNotices
  split
  · rfl
  · rfl

/-- The CSS parser is asked for the values of `style` attributes. -/
theorem filterMap_request?_startNotices (s : State) (t : StartTag) :
    (s.startNotices t).filterMap Notice.request? =
      (t.values "style").map fun css => .styleAttribute css t.locator.line := by
  have hattributes : ∀ attributes : Attributes, (attributes.flatMap t.attributeNotices).filterMap Notice.request? =
      ((attributes.filter fun a => a.name = "style" && a.uri = "").map (·.value)).map fun css =>
        .styleAttribute css t.locator.line := by
    intro attributes
    induction attributes with
    | nil => rfl
    | cons a attributes ih =>
      rw [List.flatMap_cons, List.filterMap_append, ih, request?_of_attributeNotices, List.filter_cons]
      split
      · rfl
      · rfl
  have hancestors : (((prohibitedAncestors t.name).filter s.ancestors.has).map fun a =>
      Notice.violation (.prohibitedAncestor t.name a.name) t.locator).filterMap Notice.request? = [] := by
    simp [Notice.request?]
  have hlink : (if t.name = "link" then linkNotices s t else []).filterMap Notice.request? = [] := by
    split
    · exact request?_of_linkNotices s t
    · rfl
  simp only [startNotices, List.filterMap_append, hancestors, request?_of_noticeIf, hattributes,
    request?_of_roleNotices, request?_of_inputNotices, hlink, request?_of_optionNotices, List.nil_append,
    List.append_nil]
  rfl

end State

end Rules

open Rules (State StartTag Notice)

namespace Checker

variable {m : Type → Type} [Monad m] [LawfulMonad m]

/-- Of a start tag whose attributes are in another order nothing else is to be seen: the state afterwards, the use
counters and the new diagnostics up to order are the same, and so is all that is found later, whatever the CSS parser
does. -/
theorem observe_of_perm (css : CssParser m) (c : Checker Collector) (locator : Locator) (uri name : String)
    {attributes attributes' : Attributes} (hperm : attributes.Perm attributes') (hdistinct : attributes.Distinct)
    (later : List Event) :
    c.observe css (.startElement locator uri name attributes) later =
      c.observe css (.startElement locator uri name attributes') later := by
  by_cases huri : uri = Vocabulary.xhtml
  · subst huri
    have h : StartTag.Reordered ⟨locator, name, attributes⟩ ⟨locator, name, attributes'⟩ :=
      ⟨rfl, rfl, hperm, hdistinct⟩
    refine observe_congr css c later (c.state.start_of_reordered h) (c.state.startNotices_perm h) ?_
    show ((c.state.startNotices _).filterMap Notice.request?).length ≤ 1
    rw [State.filterMap_request?_startNotices, List.length_map, StartTag.values_eq_get? hdistinct]
    exact Option.length_toList_le
  · simp only [observe_eq, State.next, State.notices, if_neg huri]

/-- Two attributes, each with an ARIA state that it implies, and a stylesheet in between. -/
def impliedTwice : Attributes :=
  .ofPairs [("disabled", ""), ("aria-disabled", "true"), ("style", "x"), ("aria-required", "true"), ("required", "")]

theorem observe_of_perm_impliedTwice :
    impliedTwice.Perm impliedTwice.reverse ∧ impliedTwice.Distinct ∧
    (observe (m := Id) ⟨fun _ => [], fun _ _ => [⟨1, 1, 1, 2, .other "?"⟩]⟩ { sink := {} }
      (.startElement ⟨1, 90, none, none⟩ Vocabulary.xhtml "select" impliedTwice.reverse) []).run.found = ([
        ⟨.warning, (Violation.impliedState "disabled").message, ⟨1, 90, none, none⟩, none⟩,
        ⟨.error, "CSS: ?", ⟨1, 90, none, none⟩, none⟩,
        ⟨.warning, (Violation.impliedState "required").message, ⟨1, 90, none, none⟩, none⟩] : List Diagnostic) := by
  have hperm : impliedTwice.Perm impliedTwice.reverse := (List.reverse_perm _).symm
  have hdistinct : impliedTwice.Distinct := by decide
  refine ⟨hperm, hdistinct, ?_⟩
  rw [← observe_of_perm _ _ _ _ _ hperm hdistinct]
  decide +kernel

end Checker

end MapMarkup
