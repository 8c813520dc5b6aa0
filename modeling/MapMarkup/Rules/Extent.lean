import MapMarkup.Rules.StartTag
import MapMarkup.Rules.State

/-!
# Rules on extents and their inputs

An `extent` gives the coordinates of a map request: it has an input for the zoom level and location inputs for both axes
of each coordinate system that it uses. A location input names its axis; its coordinate system is that of its units,
unless it has a `position` and its axis is a known one, in which case it is the first system with that axis.
-/

namespace MapMarkup.Rules

open Vocabulary

namespace StartTag

/-- The units of a location input. -/
def units (t : StartTag) : String := (t.get? "units").getD "tcrs"

/-- The axis that a location input gives, with its coordinate system. -/
def locationAxis? (t : StartTag) : Option (String × String) :=
  if t.isInput "location" then
    (t.get? "axis").map fun axis =>
      (if t.has "position" then (systemOfAxis? axis).getD t.units else t.units, axis)
  else none

/-- The notices on the axis of a location input. -/
def axisNotices (t : StartTag) : List Notice :=
  match t.get? "axis" with
  | none => [.violation .axisMissing t.locator]
  | some axis =>
    match axesOf? t.units with
    | some axes =>
      if t.has "position" || axes.contains axis then []
      else [.violation (.axisOfOtherUnits axis t.units (sorted axes)) t.locator]
    | none => []

/-- The notices on a location input. -/
def locationNotices (t : StartTag) : List Notice :=
  t.axisNotices ++
    if t.units = "tilematrix" && (t.get? "rel").any (· ≠ "map") then [.violation .relOfTileMatrix t.locator] else []

/-- Whether the tag is that of a hidden input for shards. -/
def isShard (t : StartTag) : Bool :=
  t.isInput "hidden" && t.has "shard"

/-- The notices on a hidden input for shards. -/
def shardNotices (t : StartTag) : List Notice :=
  (if (t.last? "list").isSome then [] else [.violation .shardWithoutList t.locator]) ++
    if t.has "value" then [.violation .shardWithValue t.locator] else []

/-- The notices that the type of an input gives rise to. -/
def inputNotices (t : StartTag) : List Notice :=
  if t.isInput "location" then t.locationNotices
  else if t.isShard then t.shardNotices
  else []

end StartTag

/-- Whether a coordinate system is used, but not for both of its axes. -/
def lacksAxis (found : List (String × String)) (system : String × List String) : Bool :=
  found.any (·.1 = system.1) && !system.2.all fun axis => found.contains (system.1, axis)

/-- The notices at the end of an `extent`, whose frame is `f`. -/
def extentNotices (s : State) (f : Frame) (locator : Locator) : List Notice :=
  (if f.extent.zoomFound then [] else [.violation .extentWithoutZoom locator]) ++
  (if f.extent.axes = [] then [.violation .extentWithoutLocation locator]
    else (coordinateSystems.filter (lacksAxis f.extent.axes)).map fun _ =>
      .violation .extentWithoutAxisPair locator) ++
  (if f.extent.hasAction && f.extent.templateFound then [.violation .extentActionWithTemplates locator] else []) ++
  s.inputs.unresolved.map fun r => .violation (.unboundVariable r.name) r.locator

end MapMarkup.Rules
