import MapMarkup.Proofs.CharacterNumbers

/-!
# Splitting a text item by item

The pieces of a text can be found in one pass that keeps no more than the offset of what is left and whether a reference
is open (`Splitter.next`). The pass cuts the text at offsets of bytes, which is only possible between characters; it
always is (`Splitter.Yields` holds of no pass that would tear a character), the pass comes to an end, and it finds the
pieces (`Splitter.StandsBefore.yields_pieces`). Each item has been read from its own part of the text, as `Item.ReadFrom`
says for each kind of item, and these parts make up the text (`Splitter.yields_start`).
-/

namespace MapMarkup

/-! ### Cutting at offsets -/

/-- The text behind its first `n` bytes. There is none if these end inside a character, or if there are fewer. -/
def dropBytes? : Nat → List Char → Option (List Char)
  | 0, cs => some cs
  | _ + 1, [] => none
  | n + 1, c :: cs => if c.utf8Size ≤ n + 1 then dropBytes? (n + 1 - c.utf8Size) cs else none

/-- The first `n` bytes of a text. There is no such text if they end inside a character, or if there are fewer. -/
def takeBytes? : Nat → List Char → Option (List Char)
  | 0, _ => some []
  | _ + 1, [] => none
  | n + 1, c :: cs => if c.utf8Size ≤ n + 1 then (takeBytes? (n + 1 - c.utf8Size) cs).map (c :: ·) else none

/-- The part of a text between two offsets. -/
def slice? (cs : List Char) (low high : Nat) : Option (List Char) :=
  (dropBytes? low cs).bind (takeBytes? (high - low))

/-- The offset of the first occurrence of a character. -/
def offsetOf? (mark : Char) : List Char → Option Nat
  | [] => none
  | c :: cs => if c = mark then some 0 else (offsetOf? mark cs).map (c.utf8Size + ·)

section Cutting

variable {run rest : List Char} {mark : Char}

private theorem exists_utf8Size_cons (c : Char) (cs : List Char) :
    ∃ n, utf8Size (c :: cs) = n + 1 ∧ c.utf8Size ≤ n + 1 ∧ n + 1 - c.utf8Size = utf8Size cs := by
  have hpos := c.utf8Size_pos
  refine ⟨utf8Size (c :: cs) - 1, ?_, ?_, ?_⟩ <;> rw [utf8Size_cons] <;> omega

private theorem dropBytes?_append (before rest : List Char) :
    dropBytes? (utf8Size before) (before ++ rest) = some rest := by
  induction before with
  | nil => rw [utf8Size_nil, List.nil_append, dropBytes?]
  | cons c before ih =>
    obtain ⟨n, hn, hle, hbefore⟩ := exists_utf8Size_cons c before
    rw [hn, List.cons_append, dropBytes?, if_pos hle, hbefore, ih]

private theorem takeBytes?_append (part rest : List Char) : takeBytes? (utf8Size part) (part ++ rest) = some part := by
  induction part with
  | nil => rw [utf8Size_nil, List.nil_append, takeBytes?]
  | cons c part ih =>
    obtain ⟨n, hn, hle, hpart⟩ := exists_utf8Size_cons c part
    rw [hn, List.cons_append, takeBytes?, if_pos hle, hpart, ih, Option.map_some]

theorem slice?_append (before part rest : List Char) :
    slice? (before ++ (part ++ rest)) (utf8Size before) (utf8Size before + utf8Size part) = some part := by
  rw [slice?, dropBytes?_append, Option.bind_some, Nat.add_sub_cancel_left, takeBytes?_append]

private theorem offsetOf?_append_cons (h : mark ∉ run) (rest : List Char) :
    offsetOf? mark (run ++ mark :: rest) = some (utf8Size run) := by
  induction run with
  | nil => rw [List.nil_append, offsetOf?, if_pos rfl, utf8Size_nil]
  | cons c run ih =>
    rw [List.mem_cons, not_or] at h
    rw [List.cons_append, offsetOf?, if_neg (Ne.symm h.1), ih h.2, Option.map_some, utf8Size_cons]

private theorem offsetOf?_eq_none (h : mark ∉ run) : offsetOf? mark run = none := by
  induction run with
  | nil => rfl
  | cons c run ih =>
    rw [List.mem_cons, not_or] at h
    rw [offsetOf?, if_neg (Ne.symm h.1), ih h.2, Option.map_none]

theorem eq_nil_of_utf8Size_eq_zero {cs : List Char} (h : utf8Size cs = 0) : cs = [] := by
  rcases cs with _ | ⟨c, cs⟩
  · rfl
  · obtain ⟨n, hn, -⟩ := exists_utf8Size_cons c cs
    omega

end Cutting

namespace Xml

/-! ### Items -/

/-- What is found in a text, one after the other. -/
inductive Item where
  | literal (run : List Char)
  /-- A reference to an entity, with the offset of its name. -/
  | entity (offset : Nat) (name : List Char)
  | character (c : Char)
  /-- A reference without a semicolon, or one whose number is no character. -/
  | broken (span : Span)
deriving DecidableEq, Repr

/-- The item for what stands between an ampersand and a semicolon. -/
def Item.ofReference (offset : Nat) (written : List Char) : Item :=
  match referent written with
  | .entity => .entity offset written
  | .character c => .character c
  | .invalid => .broken ⟨offset, offset + utf8Size written⟩

/-- The item for a piece. -/
def Piece.item : Piece → Item
  | .literal run => .literal run
  | .reference written => .ofReference written.offset written.chars
  | .unclosed ampersand => .broken ampersand

/-- A text that is being split. -/
structure Splitter where
  text : List Char
  /-- The offset of the text in the document. -/
  base : Nat
  /-- The number of bytes of the text that have been split. -/
  offset : Nat
  inReference : Bool
deriving DecidableEq, Repr

namespace Splitter

def start (base : Nat) (text : List Char) : Splitter :=
  ⟨text, base, 0, false⟩

/-- What becomes of a text in one step. -/
inductive Step where
  /-- It would have to be cut inside a character. -/
  | torn
  | finished
  | item (found : Item) (rest : Splitter)
deriving DecidableEq, Repr

/-- The character up to which the next item goes. -/
def mark (s : Splitter) : Char := if s.inReference then ';' else '&'

/-- The item that goes up to the mark. -/
def itemOf (s : Splitter) (part : List Char) : Item :=
  if s.inReference then .ofReference (s.base + s.offset) part else .literal part

/-- The item that goes up to the end of the text, as there is no mark. -/
def lastItem (s : Splitter) (rest : List Char) : Item :=
  if s.inReference then .broken ⟨s.base + s.offset - 1, s.base + s.offset⟩ else .literal rest

/-- Finds the next item. -/
def next (s : Splitter) : Step :=
  if s.offset = utf8Size s.text then .finished
  else
    match dropBytes? s.offset s.text with
    | none => .torn
    | some rest =>
      match offsetOf? s.mark rest with
      | none => .item (s.lastItem rest) { s with offset := utf8Size s.text }
      | some i =>
        match slice? s.text s.offset (s.offset + i) with
        | none => .torn
        | some part =>
          .item (s.itemOf part) { s with offset := s.offset + i + 1, inReference := !s.inReference }

/-- Step by step, the text is split into the items, and never torn. -/
inductive Yields : Splitter → List Item → Prop
  | finished {s : Splitter} (h : s.next = .finished) : Yields s []
  | item {s rest : Splitter} {found : Item} {items : List Item} (h : s.next = .item found rest)
    (hrest : Yields rest items) : Yields s (found :: items)

private theorem Yields.unique {s : Splitter} {items items' : List Item} (h : s.Yields items) (h' : s.Yields items') :
    items = items' := by
  induction h generalizing items' with
  | finished hnext =>
    cases h' with
    | finished => rfl
    | item hnext' => simp [hnext] at hnext'
  | item hnext _ ih =>
    cases h' with
    | finished hnext' => simp [hnext] at hnext'
    | item hnext' hrest' =>
      rw [hnext] at hnext'
      obtain ⟨rfl, rfl⟩ := Step.item.inj hnext'
      rw [ih hrest']

/-! ### Single steps -/

section Steps

variable {s : Splitter} {before part rest : List Char}

/-- The text in front of the offset has been split, the other one has not. -/
structure StandsBefore (s : Splitter) (before rest : List Char) : Prop where
  text_eq : s.text = before ++ rest
  offset_eq : s.offset = utf8Size before

private theorem StandsBefore.next_of_end (h : s.StandsBefore before []) : s.next = .finished := by
  have hend : s.offset = utf8Size s.text := by rw [h.text_eq, List.append_nil, h.offset_eq]
  exact if_pos hend

private theorem StandsBefore.offset_ne (h : s.StandsBefore before rest) (hne : rest ≠ []) :
    s.offset ≠ utf8Size s.text := by
  rw [h.text_eq, h.offset_eq, utf8Size_append]
  intro heq
  have hzero : utf8Size rest = 0 := by omega
  exact hne (eq_nil_of_utf8Size_eq_zero hzero)

private theorem StandsBefore.dropBytes?_eq (h : s.StandsBefore before rest) :
    dropBytes? s.offset s.text = some rest := by
  rw [h.text_eq, h.offset_eq, dropBytes?_append]

private theorem utf8Size_mark (s : Splitter) : s.mark.utf8Size = 1 := by
  have hsize : Char.utf8Size ';' = 1 ∧ Char.utf8Size '&' = 1 := by decide
  unfold mark
  split
  · exact hsize.1
  · exact hsize.2

/-- A step up to the next mark. -/
private theorem StandsBefore.next_of_mark (h : s.StandsBefore before (part ++ s.mark :: rest)) (hpart : s.mark ∉ part) :
    ∃ after : Splitter, s.next = .item (s.itemOf part) after ∧
      after.StandsBefore (before ++ (part ++ [s.mark])) rest ∧ after.inReference = (!s.inReference) ∧
      after.base + after.offset = s.base + s.offset + utf8Size part + 1 := by
  have hslice : slice? s.text s.offset (s.offset + utf8Size part) = some part := by
    rw [h.text_eq, h.offset_eq, slice?_append]
  refine ⟨{ s with offset := s.offset + utf8Size part + 1, inReference := !s.inReference }, ?_, ⟨?_, ?_⟩, rfl, ?_⟩
  · unfold next
    rw [if_neg (h.offset_ne (by simp)), h.dropBytes?_eq]
    dsimp only
    rw [offsetOf?_append_cons hpart]
    dsimp only
    rw [hslice]
  · show s.text = _
    rw [h.text_eq]
    simp
  · show s.offset + utf8Size part + 1 = _
    rw [h.offset_eq, utf8Size_append, utf8Size_append, utf8Size_cons, utf8Size_nil, utf8Size_mark]
    omega
  · show s.base + (s.offset + utf8Size part + 1) = _
    omega

/-- A step to the end of the text. -/
private theorem StandsBefore.next_of_not_mem (h : s.StandsBefore before rest) (hne : rest ≠ [])
    (hrest : s.mark ∉ rest) :
    ∃ after : Splitter, s.next = .item (s.lastItem rest) after ∧ after.StandsBefore s.text [] := by
  refine ⟨{ s with offset := utf8Size s.text }, ?_, (List.append_nil _).symm, rfl⟩
  unfold next
  rw [if_neg (h.offset_ne hne), h.dropBytes?_eq]
  dsimp only
  rw [offsetOf?_eq_none hrest]

end Steps

/-! ### The whole text -/

/-- From outside the references, the items are those for the pieces. -/
theorem StandsBefore.yields_pieces {s : Splitter} {before cs : List Char} (h : s.StandsBefore before cs)
    (hout : s.inReference = false) : s.Yields ((pieces (s.base + s.offset) cs).map Piece.item) := by
  -- The mark alternates between the two characters, and it says what the part in front of it is.
  have hampersand : ∀ {s : Splitter}, s.inReference = false →
      s.mark = '&' ∧ ∀ run, s.itemOf run = .literal run ∧ s.lastItem run = .literal run := by
    intro s hout
    simp [mark, itemOf, lastItem, hout]
  have hsemicolon : ∀ {s : Splitter}, s.inReference = true →
      s.mark = ';' ∧ ∀ written, s.itemOf written = .ofReference (s.base + s.offset) written ∧
        s.lastItem written = .broken ⟨s.base + s.offset - 1, s.base + s.offset⟩ := by
    intro s hin
    simp [mark, itemOf, lastItem, hin]
  obtain ⟨hmark, hliteral⟩ := hampersand hout
  induction cs using induction_pieces generalizing s before with
  | nil =>
    rw [pieces_nil]
    exact .finished h.next_of_end
  | plain run hrun hne =>
    rw [pieces_of_not_mem _ hrun hne]
    obtain ⟨ended, hnext, hended⟩ := h.next_of_not_mem hne (hmark ▸ hrun)
    rw [(hliteral run).2] at hnext
    exact .item hnext (.finished hended.next_of_end)
  | last run hrun =>
    rw [pieces_lastAmpersand _ hrun]
    rw [← hmark] at h hrun
    obtain ⟨opened, hnext, hopened, -, -⟩ := h.next_of_mark hrun
    rw [(hliteral run).1] at hnext
    exact .item hnext (.finished hopened.next_of_end)
  | unclosed run cs hrun hne hcs =>
    rw [pieces_unclosed _ hrun hne hcs]
    rw [← hmark] at h hrun
    obtain ⟨opened, hnext, hopened, hin, hplace⟩ := h.next_of_mark hrun
    rw [hout, Bool.not_false] at hin
    obtain ⟨hmark', hitem⟩ := hsemicolon hin
    obtain ⟨ended, hlast, hended⟩ := hopened.next_of_not_mem hne (hmark' ▸ hcs)
    rw [(hliteral run).1] at hnext
    rw [(hitem cs).2, hplace, Nat.add_sub_cancel] at hlast
    exact .item hnext (.item hlast (.finished hended.next_of_end))
  | reference run written cs hrun hwritten ih =>
    rw [pieces_reference _ hrun hwritten]
    rw [← hmark] at h hrun
    obtain ⟨opened, hnext, hopened, hin, hplace⟩ := h.next_of_mark hrun
    rw [hout, Bool.not_false] at hin
    obtain ⟨hmark', hitem⟩ := hsemicolon hin
    rw [← hmark'] at hopened hwritten
    obtain ⟨closed, hreference, hclosed, hout', hplace'⟩ := hopened.next_of_mark hwritten
    rw [hin, Bool.not_true] at hout'
    rw [(hliteral run).1] at hnext
    rw [(hitem written).1, hplace] at hreference
    rw [hplace] at hplace'
    have hrest := ih hclosed hout' (hampersand hout').1 (hampersand hout').2
    rw [hplace'] at hrest
    exact .item hnext (.item hreference hrest)

end Splitter

/-! ### What items have been read from -/

/-- The item has been read from the given part of a text, which stands at `place` in the document. -/
inductive Item.ReadFrom (place : Nat) : Item → List Char → Prop
  | literal {run : List Char} (hrun : '&' ∉ run) : ReadFrom place (.literal run) run
  | entity {name : List Char} (hname : ';' ∉ name) (hsign : name.head? ≠ some '#') :
    ReadFrom place (.entity (place + 1) name) ('&' :: (name ++ [';']))
  | character {number : List Char} {c : Char} (hnumber : ';' ∉ number) (hc : WritesCharacter number c) :
    ReadFrom place (.character c) ('&' :: '#' :: (number ++ [';']))
  | noCharacter {number : List Char} (hnumber : ';' ∉ number) (hnone : ∀ c, ¬ WritesCharacter number c) :
    ReadFrom place (.broken ⟨place + 1, place + 1 + utf8Size ('#' :: number)⟩) ('&' :: '#' :: (number ++ [';']))
  | unclosed {rest : List Char} (hne : rest ≠ []) (hrest : ';' ∉ rest) :
    ReadFrom place (.broken ⟨place, place + 1⟩) ('&' :: rest)

/-- The items have been read from a text that stands at `place`, each from its own part of it. -/
inductive Item.AllReadFrom : Nat → List Item → List Char → Prop
  | nil {place : Nat} : AllReadFrom place [] []
  | cons {place : Nat} {first : Item} {items : List Item} {source text : List Char}
    (hfirst : first.ReadFrom place source) (hrest : AllReadFrom (place + utf8Size source) items text) :
    AllReadFrom place (first :: items) (source ++ text)

namespace Item

private theorem readFrom_ofReference {written : List Char} (hwritten : ';' ∉ written) (place : Nat) :
    (ofReference (place + 1) written).ReadFrom place ('&' :: (written ++ [';'])) := by
  unfold ofReference
  by_cases hsign : written.head? = some '#'
  · obtain ⟨number, rfl⟩ := List.head?_eq_some_iff.1 hsign
    have hnumber : ';' ∉ number := fun h => hwritten (List.mem_cons_of_mem _ h)
    cases hreferent : referent ('#' :: number) with
    | entity => exact absurd hsign (referent_eq_entity_iff.1 hreferent)
    | character c => exact .character hnumber (referent_numberSign_eq_character_iff.1 hreferent)
    | invalid =>
      refine .noCharacter hnumber fun c hc => ?_
      have hcharacter := referent_numberSign_eq_character_iff.2 hc
      simp [hreferent] at hcharacter
  · rw [referent_eq_entity_iff.2 hsign]
    exact .entity hwritten hsign

/-- The items of a text have been read from it, up to an ampersand at its end that opens nothing. -/
private theorem exists_allReadFrom_pieces (place : Nat) (cs : List Char) :
    ∃ written, AllReadFrom place ((pieces place cs).map Piece.item) written ∧
      (cs = written ∨ cs = written ++ ['&'] ∧ Closed written) := by
  have hsize : Char.utf8Size '&' = 1 ∧ Char.utf8Size ';' = 1 := by decide
  induction cs using induction_pieces generalizing place with
  | nil =>
    rw [pieces_nil]
    exact ⟨[], .nil, .inl rfl⟩
  | plain run hrun hne =>
    rw [pieces_of_not_mem place hrun hne]
    exact ⟨run ++ [], .cons (.literal hrun) .nil, .inl (List.append_nil run).symm⟩
  | last run hrun =>
    rw [pieces_lastAmpersand place hrun]
    refine ⟨run ++ [], .cons (.literal hrun) .nil, .inr ?_⟩
    rw [List.append_nil]
    exact ⟨rfl, .plain hrun⟩
  | unclosed run cs hrun hne hcs =>
    rw [pieces_unclosed place hrun hne hcs]
    refine ⟨run ++ (('&' :: cs) ++ []), .cons (.literal hrun) (.cons (.unclosed hne hcs) .nil), .inl ?_⟩
    rw [List.append_nil]
  | reference run written cs hrun hwritten ih =>
    obtain ⟨text, htext, hcs⟩ := ih (place + utf8Size run + 1 + utf8Size written + 1)
    have hplace : place + utf8Size run + utf8Size ('&' :: (written ++ [';'])) =
        place + utf8Size run + 1 + utf8Size written + 1 := by
      simp only [utf8Size_cons, utf8Size_append, utf8Size_nil, hsize]
      omega
    rw [pieces_reference place hrun hwritten]
    refine ⟨run ++ (('&' :: (written ++ [';'])) ++ text), ?_, ?_⟩
    · exact .cons (.literal hrun) (.cons (readFrom_ofReference hwritten _) (hplace ▸ htext))
    · rcases hcs with rfl | ⟨rfl, hclosed⟩
      · exact .inl (by simp)
      · refine .inr ⟨by simp, ?_⟩
        have hwhole : run ++ (('&' :: (written ++ [';'])) ++ text) = run ++ '&' :: (written ++ ';' :: text) := by simp
        rw [hwhole]
        exact .reference hrun hwritten hclosed

end Item

/-- Splitting a text comes to an end and never cuts a character, whatever the text is and wherever it stands. The items
are those for the pieces; each has been read from its own part of the text, from the start of the text on and without
gaps. The parts are all of the text, or all but an ampersand at its end that opens nothing. -/
theorem Splitter.yields_start (base : Nat) (text : List Char) :
    ∃ items written, (∀ found, (start base text).Yields found ↔ found = items) ∧
      items = (pieces base text).map Piece.item ∧ Item.AllReadFrom base items written ∧
      (text = written ∨ text = written ++ ['&'] ∧ Closed written) := by
  have hstart : (start base text).StandsBefore [] text := ⟨rfl, rfl⟩
  have hyields := hstart.yields_pieces rfl
  obtain ⟨written, hread, htext⟩ := Item.exists_allReadFrom_pieces base text
  refine ⟨_, written, fun found => ?_, rfl, hread, htext⟩
  constructor
  · intro hfound
    exact hfound.unique hyields
  · rintro rfl
    exact hyields

end Xml

end MapMarkup
