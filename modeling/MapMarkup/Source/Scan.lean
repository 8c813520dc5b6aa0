import MapMarkup.Source.Position

/-!
# Scanning a document

A cursor is a position together with the text that follows it. A scan moves a cursor: it either fails or gives a
value and a later cursor, and its result carries the proof that the later cursor is reached from the earlier one by
moving over some characters. So every scan, however it is put together, keeps positions true to the text and never
goes back. A scan that is sure to move over at least one character `Advances`; it is enough that its first step does.
-/

namespace MapMarkup

/-- A position and the text that follows it. -/
structure Cursor where
  position : Position
  rest : List Char
deriving DecidableEq, Repr

namespace Cursor

/-- The cursor before a document. -/
def start (source : List Char) : Cursor := ⟨.start, source⟩

/-- The cursor `n` characters later, or at the end of the text. -/
def advance (c : Cursor) (n : Nat) : Cursor :=
  ⟨c.position.after (c.rest.take n), c.rest.drop n⟩

@[simp] theorem rest_advance (c : Cursor) (n : Nat) : (c.advance n).rest = c.rest.drop n := rfl

@[simp] theorem advance_zero (c : Cursor) : c.advance 0 = c := by
  simp [advance]

theorem advance_advance (c : Cursor) (m n : Nat) : (c.advance m).advance n = c.advance (m + n) := by
  simp [advance, List.take_add, Position.after_append]

/-- The cursor `d` is `c` moved over some characters. -/
def Reaches (c d : Cursor) : Prop := ∃ n, d = c.advance n

theorem Reaches.refl (c : Cursor) : c.Reaches c := ⟨0, by simp⟩

theorem Reaches.trans {c d e : Cursor} : c.Reaches d → d.Reaches e → c.Reaches e := by
  rintro ⟨m, rfl⟩ ⟨n, rfl⟩; exact ⟨m + n, advance_advance c m n⟩

theorem Reaches.length_le {c d : Cursor} : c.Reaches d → d.rest.length ≤ c.rest.length := by
  rintro ⟨n, rfl⟩; simp

/-- A reached cursor splits the text into what was moved over and what is left. -/
theorem Reaches.split {c d : Cursor} : c.Reaches d →
    ∃ used, c.rest = used ++ d.rest ∧ d.position = c.position.after used := by
  rintro ⟨n, rfl⟩; exact ⟨c.rest.take n, by simp, rfl⟩

end Cursor

/-- What a successful scan from `c` gives. -/
structure Scanned (c : Cursor) (α : Type) where
  value : α
  next : Cursor
  reaches : c.Reaches next

/-- A scan that fails with an `ε` or gives an `α`. -/
def Scan (ε α : Type) : Type := (c : Cursor) → Except ε (Scanned c α)

namespace Scan

variable {ε α β : Type}

instance : Monad (Scan ε) where
  pure a := fun c => .ok ⟨a, c, .refl c⟩
  bind s f := fun c =>
    match s c with
    | .error e => .error e
    | .ok r =>
      match f r.value r.next with
      | .error e => .error e
      | .ok r' => .ok ⟨r'.value, r'.next, r.reaches.trans r'.reaches⟩

/-- The scan that fails. -/
def fail (e : ε) : Scan ε α := fun _ => .error e

/-- The present position. -/
def position : Scan ε Position := fun c => .ok ⟨c.position, c, .refl c⟩

/-- The text ahead. -/
def ahead : Scan ε (List Char) := fun c => .ok ⟨c.rest, c, .refl c⟩

/-- Moves over `n` characters, or to the end of the text, and gives what was moved over. -/
def take (n : Nat) : Scan ε (List Char) := fun c => .ok ⟨c.rest.take n, c.advance n, ⟨n, rfl⟩⟩

/-- Moves over the longest run of characters that satisfy `p`, and gives it. -/
def takeWhile (p : Char → Bool) : Scan ε (List Char) := do
  take ((← ahead).takeWhile p).length

/-- The scan moves over at least one character whenever it succeeds. -/
def Advances (s : Scan ε α) : Prop :=
  ∀ c r, s c = .ok r → r.next.rest.length < c.rest.length

theorem Advances.fail (e : ε) : Advances (Scan.fail e : Scan ε α) := by
  intro c r h; simp [Scan.fail] at h

/-- Two scans in a row succeed when both do, and end where the second one ends. -/
theorem bind_eq_ok {s : Scan ε α} {f : α → Scan ε β} {c : Cursor} {r : Scanned c β} (h : (s >>= f) c = .ok r) :
    ∃ r₁, s c = .ok r₁ ∧ ∃ r₂, f r₁.value r₁.next = .ok r₂ ∧ r.value = r₂.value ∧ r.next = r₂.next := by
  simp only [Bind.bind] at h
  split at h
  · simp at h
  · rename_i r₁ h₁
    split at h
    · simp at h
    · rename_i r₂ h₂
      obtain rfl := Except.ok.inj h
      exact ⟨r₁, h₁, r₂, h₂, rfl, rfl⟩

/-- A scan whose first step advances does so itself, whatever follows. -/
theorem Advances.bind {s : Scan ε α} (hs : Advances s) (f : α → Scan ε β) : Advances (s >>= f) := by
  intro c r h
  obtain ⟨r₁, h₁, r₂, -, -, hr⟩ := bind_eq_ok h
  rw [hr]
  exact Nat.lt_of_le_of_lt r₂.reaches.length_le (hs c r₁ h₁)

/-- A scan that only looks before an advancing one. -/
theorem Advances.of_bind {s : Scan ε α} {f : α → Scan ε β} (hf : ∀ a, Advances (f a)) : Advances (s >>= f) := by
  intro c r h
  obtain ⟨r₁, -, r₂, h₂, -, hr⟩ := bind_eq_ok h
  rw [hr]
  exact Nat.lt_of_lt_of_le (hf r₁.value r₁.next r₂ h₂) r₁.reaches.length_le

end Scan

end MapMarkup
