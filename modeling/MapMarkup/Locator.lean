/-!
# Locators

A locator says where in which document something happened: just past it, by line and column, both counted from 1. Lines
and columns are numbers of 32 bits; the sum of two of them is one as well, or there is no such line or column.
-/

namespace MapMarkup

structure Locator where
  line : Nat
  column : Nat
  systemId : Option String := none
  publicId : Option String := none
deriving DecidableEq, Repr

/-- The sum of two numbers of 32 bits, if it is one. -/
def sum32? (m n : Nat) : Option Nat :=
  if m + n < UInt32.size then some (m + n) else none

theorem sum32?_of_lt {m n : Nat} (h : m + n < UInt32.size) : sum32? m n = some (m + n) :=
  if_pos h

theorem sum32?_eq_some_iff {m n k : Nat} : sum32? m n = some k ↔ m + n < UInt32.size ∧ m + n = k := by
  simp [sum32?]

theorem sum32?_eq_none_iff {m n : Nat} : sum32? m n = none ↔ UInt32.size ≤ m + n := by
  simp [sum32?]

/-- The locator in words: the system identifier, if there is one, then line and column. -/
def Locator.text (l : Locator) : String :=
  (match l.systemId with
    | some id => id ++ ":"
    | none => "") ++ toString l.line ++ ":" ++ toString l.column

end MapMarkup
