import MapMarkup.Rules.StartTag
import MapMarkup.Rules.State
import MapMarkup.Text.Template

/-!
# Rules on links

A link is a query link, a template link or neither, by its relations. Template links stand in an `extent`, and the
variables of their templates refer to the inputs of that `extent`. What a link may have besides depends on its parent:
where the parent is outside the vocabulary, or there is none, the link may stand anywhere.
-/

namespace MapMarkup.Rules

namespace StartTag

/-- Whether the tag is a link to be queried. -/
def isQueryLink (t : StartTag) : Bool :=
  t.name = "link" && t.hasRelation "query"

/-- Whether the tag is a link to tiles, images or features that are named by a template. -/
def isTemplateLink (t : StartTag) : Bool :=
  t.name = "link" && (t.last? "tref").isSome && !t.hasRelation "query" &&
    (t.hasRelation "tile" || t.hasRelation "image" || t.hasRelation "features")

/-- Whether the tag is a link by which the document names its own present style. -/
def isSelfStyle (t : StartTag) : Bool :=
  t.name = "link" && t.hasRelation "self" && t.hasRelation "style"

/-- The variables in the template of a link. -/
def templateVariables (t : StartTag) : List String :=
  if t.name = "link" then
    match t.last? "tref" with
    | some tref => Text.templateVariables tref
    | none => []
  else []

end StartTag

/-- A violation in a start tag, if it is one. -/
def noticeIf (t : StartTag) (violated : Bool) (v : Violation) : List Notice :=
  if violated then [.violation v t.locator] else []

/-- Whether the parent of an element that starts now is an element of the vocabulary other than `extent`. -/
def State.misplacesTemplates (s : State) : Bool :=
  s.parentName?.any (· ≠ "extent")

/-- The notices on the start tag of a link. -/
def linkNotices (s : State) (t : StartTag) : List Notice :=
  let inExtent := s.parentName? = some "extent"
  let hasTemplate := (t.last? "tref").isSome
  let hasHref := t.has "href"
  noticeIf t (t.hasRelation "query" && s.parent?.any (·.extent.queryFound)) .secondQueryLink ++
  noticeIf t (hasTemplate && s.misplacesTemplates) .trefOutsideExtent ++
  noticeIf t (hasTemplate && hasHref) .trefWithHref ++
  noticeIf t (hasHref && inExtent) .hrefInExtent ++
  noticeIf t (t.has "projection" && !t.hasRelation "alternate") .projectionWithoutAlternate ++
  noticeIf t (s.ancestors.body && s.misplacesTemplates && t.relations ≠ [] && !t.hasRelation "next" &&
    !t.has "itemprop" && !t.has "property") .linkInBody

end MapMarkup.Rules
