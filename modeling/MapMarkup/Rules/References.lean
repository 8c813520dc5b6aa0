import Std.Data.ExtTreeSet
import MapMarkup.Locator

/-!
# References to names

A reference names something that may come before it or after it in its scope. So references wait, in the order in which
they are made, until the scope ends, and the names that can be referred to are a set. A reference is unresolved if its
name is not in the set then.
-/

namespace MapMarkup.Rules

/-- A reference to a name, with the place where it is made. -/
structure Reference where
  locator : Locator
  name : String
deriving DecidableEq, Repr

/-- The references made in a scope and the names that they may refer to. -/
structure References where
  pending : List Reference := []
  targets : Std.ExtTreeSet String := ∅

namespace References

/-- Makes references. -/
def refer (r : References) (references : List Reference) : References :=
  { r with pending := r.pending ++ references }

/-- Adds names to which references may be made. -/
def define (r : References) (names : List String) : References :=
  { r with targets := r.targets.insertMany names }

/-- Forgets the references and the names. -/
def clear (r : References) : References :=
  { r with pending := [], targets := ∅ }

/-- The references to names that are not there, in the order in which they were made. -/
def unresolved (r : References) : List Reference :=
  r.pending.filter fun p => !r.targets.contains p.name

@[simp] theorem pending_refer (r : References) (ps : List Reference) : (r.refer ps).pending = r.pending ++ ps := rfl

@[simp] theorem targets_refer (r : References) (ps : List Reference) : (r.refer ps).targets = r.targets := rfl

@[simp] theorem pending_define (r : References) (names : List String) : (r.define names).pending = r.pending := rfl

theorem contains_define (r : References) (names : List String) (n : String) :
    (r.define names).targets.contains n = (r.targets.contains n || names.contains n) := by
  simp [define]

end References

end MapMarkup.Rules
