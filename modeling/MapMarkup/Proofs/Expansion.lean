import Mathlib.Data.List.Forall2
import MapMarkup.Proofs.Lookahead
import MapMarkup.Proofs.Tokens

/-!
# What references stand for

Whether the references of a text can be expanded, and to what, does not depend on where the text stands
(`Entities.expand_eq_ok_of_chars`). In an attribute value, a literal character that is no white space may be written as
a reference to it, and the expanded value is the same (`Entities.Expands.respelled`).
-/

namespace MapMarkup.Xml

section Results

variable {ε α β α' β' : Type} {f : α → Except ε β} {g : α' → Except ε β'}

theorem mapM_eq_ok_iff {xs : List α} {ys : List β} :
    xs.mapM f = .ok ys ↔ List.Forall₂ (fun x y => f x = .ok y) xs ys := by
  induction xs generalizing ys with
  | nil => cases ys <;> simp [pure, Except.pure]
  | cons x xs ih =>
    rw [List.mapM_cons]
    cases hx : f x with
    | error e => cases ys <;> simp [bind, Except.bind, hx]
    | ok y =>
      cases hxs : xs.mapM f with
      | error e => cases ys <;> simp [bind, Except.bind, hx, ← ih, hxs]
      | ok zs => cases ys <;> simp [bind, Except.bind, pure, Except.pure, hx, ← ih, hxs]

/-- The error is that of the first item that fails. -/
theorem mapM_eq_error_iff {xs : List α} {e : ε} :
    xs.mapM f = .error e ↔
      ∃ before x after, xs = before ++ x :: after ∧ (∀ y ∈ before, ∃ z, f y = .ok z) ∧ f x = .error e := by
  induction xs with
  | nil => simp [pure, Except.pure]
  | cons x xs ih =>
    rw [List.mapM_cons]
    cases hx : f x with
    | error d =>
      have hstep : (do return (← (.error d : Except ε β)) :: (← xs.mapM f)) = .error e ↔ f x = .error e := by
        simp [hx, bind, Except.bind]
      refine hstep.trans ⟨fun h => ⟨[], x, xs, rfl, by simp, h⟩, ?_⟩
      rintro ⟨_ | ⟨b, before⟩, y, after, h, hbefore, hy⟩
      · obtain ⟨rfl, -⟩ := List.cons.inj h
        exact hy
      · obtain ⟨rfl, -⟩ := List.cons.inj h
        obtain ⟨z, hz⟩ := hbefore x (by simp)
        simp [hx] at hz
    | ok z =>
      have hstep : (do return z :: (← xs.mapM f)) = .error e ↔ xs.mapM f = .error e := by
        cases xs.mapM f <;> simp [bind, Except.bind, pure, Except.pure]
      refine hstep.trans (ih.trans ⟨?_, ?_⟩)
      · rintro ⟨before, y, after, rfl, hbefore, hy⟩
        exact ⟨x :: before, y, after, rfl, by simpa [hx] using hbefore, hy⟩
      · rintro ⟨_ | ⟨b, before⟩, y, after, h, hbefore, hy⟩
        · obtain ⟨rfl, -⟩ := List.cons.inj h
          simp [hx] at hy
        · obtain ⟨rfl, rfl⟩ := List.cons.inj h
          exact ⟨before, y, after, rfl, fun y hy => hbefore y (List.mem_cons_of_mem _ hy), hy⟩

theorem exists_mapM_eq_ok_iff {xs : List α} : (∃ ys, xs.mapM f = .ok ys) ↔ ∀ x ∈ xs, ∃ y, f x = .ok y := by
  simp only [mapM_eq_ok_iff]
  induction xs with
  | nil => simp
  | cons x xs ih =>
    rw [List.forall_mem_cons, ← ih]
    constructor
    · rintro ⟨_, h⟩
      obtain ⟨y, ys, hy, hys, rfl⟩ := List.forall₂_cons_left_iff.1 h
      exact ⟨⟨y, hy⟩, ys, hys⟩
    · rintro ⟨⟨y, hy⟩, ys, hys⟩
      exact ⟨y :: ys, .cons hy hys⟩

/-- What succeeds item by item succeeds for related items, with related results. -/
theorem exists_mapM_eq_ok {R : β → β' → Prop} {xs : List α} {xs' : List α'} {ys : List β}
    (h : List.Forall₂ (fun x x' => ∀ y, f x = .ok y → ∃ y', g x' = .ok y' ∧ R y y') xs xs')
    (hys : xs.mapM f = .ok ys) : ∃ ys', xs'.mapM g = .ok ys' ∧ List.Forall₂ R ys ys' := by
  simp only [mapM_eq_ok_iff] at hys ⊢
  induction h generalizing ys with
  | nil =>
    cases hys
    exact ⟨[], .nil, .nil⟩
  | cons hx _ ih =>
    obtain ⟨y, zs, hy, hzs, rfl⟩ := List.forall₂_cons_left_iff.1 hys
    obtain ⟨y', hy', hR⟩ := hx y hy
    obtain ⟨zs', hzs', hRs⟩ := ih hzs
    exact ⟨y' :: zs', .cons hy' hzs', .cons hR hRs⟩

end Results

/-! ### Pieces of a text -/

section Pieces

variable {run written cs : List Char} (o : Nat)

@[simp] theorem pieces_nil : pieces o [] = [] := by
  rw [pieces, if_pos rfl]

theorem pieces_of_not_mem (hrun : '&' ∉ run) (hne : run ≠ []) : pieces o run = [.literal run] := by
  have hdrop := dropWhile_of_not_mem hrun
  have htake := takeWhile_of_not_mem hrun
  unfold pieces
  rw [if_neg hne]
  dsimp only
  split
  · rw [htake]
  · rename_i heq
    rw [hdrop] at heq
    simp at heq
  · rename_i heq
    rw [hdrop] at heq
    simp at heq

theorem pieces_lastAmpersand (hrun : '&' ∉ run) : pieces o (run ++ ['&']) = [.literal run] := by
  have hdrop := dropWhile_append_cons hrun []
  have htake := takeWhile_append_cons hrun []
  unfold pieces
  rw [if_neg (by simp)]
  dsimp only
  split
  · rw [htake]
  · rw [htake]
  · rename_i hmore heq
    rw [hdrop] at heq
    exact absurd (List.cons.inj heq).2.symm hmore

theorem pieces_unclosed (hrun : '&' ∉ run) (hne : cs ≠ []) (hcs : ';' ∉ cs) :
    pieces o (run ++ '&' :: cs) =
      [.literal run, .unclosed ⟨o + utf8Size run, o + utf8Size run + 1⟩] := by
  have hdrop := dropWhile_append_cons hrun cs
  have htake := takeWhile_append_cons hrun cs
  have hend := dropWhile_of_not_mem hcs
  unfold pieces
  rw [if_neg (by simp)]
  dsimp only
  split
  · rename_i heq
    rw [hdrop] at heq
    simp at heq
  · rename_i heq
    rw [hdrop] at heq
    exact absurd (List.cons.inj heq).2 hne
  · rename_i heq
    rw [hdrop] at heq
    obtain ⟨rfl, rfl⟩ := List.cons.inj heq
    split
    · rw [htake, Nat.add_sub_cancel]
    · rename_i heq
      rw [hend] at heq
      simp at heq

theorem pieces_reference (hrun : '&' ∉ run) (hwritten : ';' ∉ written) (cs : List Char) :
    pieces o (run ++ '&' :: (written ++ ';' :: cs)) =
      .literal run :: .reference ⟨o + utf8Size run + 1, written⟩ ::
        pieces (o + utf8Size run + 1 + utf8Size written + 1) cs := by
  have hdrop := dropWhile_append_cons hrun (written ++ ';' :: cs)
  have htake := takeWhile_append_cons hrun (written ++ ';' :: cs)
  have hend := dropWhile_append_cons hwritten cs
  have htaken := takeWhile_append_cons hwritten cs
  rw [pieces, if_neg (by simp)]
  dsimp only
  split
  · rename_i heq
    rw [hdrop] at heq
    simp at heq
  · rename_i heq
    rw [hdrop] at heq
    simp at heq
  · rename_i heq
    rw [hdrop] at heq
    obtain ⟨rfl, rfl⟩ := List.cons.inj heq
    split
    · rename_i heq
      rw [hend] at heq
      simp at heq
    · rename_i heq
      rw [hend] at heq
      obtain ⟨rfl, rfl⟩ := List.cons.inj heq
      rw [htake, htaken]

/-- To show something of every text, go from reference to reference. -/
theorem induction_pieces {P : List Char → Prop} (nil : P []) (plain : ∀ run, '&' ∉ run → run ≠ [] → P run)
    (last : ∀ run, '&' ∉ run → P (run ++ ['&']))
    (unclosed : ∀ run cs, '&' ∉ run → cs ≠ [] → ';' ∉ cs → P (run ++ '&' :: cs))
    (reference : ∀ run written cs, '&' ∉ run → ';' ∉ written → P cs → P (run ++ '&' :: (written ++ ';' :: cs)))
    (cs : List Char) : P cs := by
  induction hn : cs.length using Nat.strongRecOn generalizing cs with
  | _ n ih =>
    by_cases hcs : cs = []
    · exact hcs ▸ nil
    by_cases hamp : '&' ∈ cs
    · obtain ⟨run, after, rfl, hrun⟩ := List.eq_append_cons_of_mem hamp
      by_cases hafter : after = []
      · exact hafter ▸ last run hrun
      by_cases hend : ';' ∈ after
      · obtain ⟨written, rest, rfl, hwritten⟩ := List.eq_append_cons_of_mem hend
        refine reference run written rest hrun hwritten (ih rest.length ?_ rest rfl)
        simp only [List.length_append, List.length_cons] at hn
        omega
      · exact unclosed run after hrun hafter hend
    · exact plain cs hamp hcs

end Pieces

/-- The pieces are the same, except for where they stand. -/
inductive Piece.SameText : Piece → Piece → Prop
  | literal (cs : List Char) : SameText (.literal cs) (.literal cs)
  | reference (o o' : Nat) (cs : List Char) : SameText (.reference ⟨o, cs⟩) (.reference ⟨o', cs⟩)
  | unclosed (s t : Span) : SameText (.unclosed s) (.unclosed t)

private theorem pieces_sameText (o o' : Nat) (cs : List Char) :
    List.Forall₂ Piece.SameText (pieces o cs) (pieces o' cs) := by
  induction cs using induction_pieces generalizing o o' with
  | nil => simp
  | plain run hrun hne =>
    rw [pieces_of_not_mem o hrun hne, pieces_of_not_mem o' hrun hne]
    exact .cons (.literal run) .nil
  | last run hrun =>
    rw [pieces_lastAmpersand o hrun, pieces_lastAmpersand o' hrun]
    exact .cons (.literal run) .nil
  | unclosed run cs hrun hne hcs =>
    rw [pieces_unclosed o hrun hne hcs, pieces_unclosed o' hrun hne hcs]
    exact .cons (.literal run) (.cons (.unclosed _ _) .nil)
  | reference run written cs hrun hwritten ih =>
    rw [pieces_reference o hrun hwritten, pieces_reference o' hrun hwritten]
    exact .cons (.literal run) (.cons (.reference _ _ written) (ih _ _))

/-! ### Expanding -/

variable {entities : Entities} {context : Context}

private theorem expandPiece_of_sameText {p q : Piece} (h : p.SameText q) {cs : List Char}
    (hp : entities.expandPiece context p = .ok cs) : entities.expandPiece context q = .ok cs := by
  cases h with
  | literal => exact hp
  | unclosed => simp [Entities.expandPiece] at hp
  | reference =>
    simp only [Entities.expandPiece] at hp ⊢
    split at hp
    · exact hp
    · simp at hp
    · split at hp
      · exact hp
      · simp at hp

private theorem replacementPiece_of_sameText {p q : Piece} (h : p.SameText q) {cs : List Char}
    (hp : replacementPiece p = .ok cs) : replacementPiece q = .ok cs := by
  cases h with
  | literal => exact hp
  | unclosed => simp [replacementPiece] at hp
  | reference =>
    simp only [replacementPiece] at hp ⊢
    split at hp
    · exact hp
    · simp at hp
    · exact hp

/-- Results of pieces, put together. -/
private theorem flatten_mapM_eq_ok_iff {ε α : Type} {f : Piece → Except ε (List α)} {ps : List Piece} {xs : List α} :
    (do return (← ps.mapM f).flatten : Except ε (List α)) = .ok xs ↔
      ∃ parts, List.Forall₂ (fun p part => f p = .ok part) ps parts ∧ xs = parts.flatten := by
  constructor
  · intro h
    obtain ⟨parts, hparts, h⟩ := exists_of_bind_eq_ok h
    exact ⟨parts, mapM_eq_ok_iff.1 hparts, (Except.ok.inj h).symm⟩
  · rintro ⟨parts, hparts, rfl⟩
    rw [mapM_eq_ok_iff.2 hparts]
    rfl

private theorem forall₂_of_sameText {ε α : Type} {f : Piece → Except ε (List α)} {ps qs : List Piece}
    {parts : List (List α)}
    (hf : ∀ {p q : Piece}, p.SameText q → ∀ {part}, f p = .ok part → f q = .ok part)
    (h : List.Forall₂ Piece.SameText ps qs) (hparts : List.Forall₂ (fun p part => f p = .ok part) ps parts) :
    List.Forall₂ (fun p part => f p = .ok part) qs parts := by
  induction h generalizing parts with
  | nil => exact hparts
  | cons hp _ ih =>
    obtain ⟨part, rest, hpart, hrest, rfl⟩ := List.forall₂_cons_left_iff.1 hparts
    exact .cons (hf hp hpart) (ih hrest)

namespace Entities

/-- A text has the same expansion wherever it stands. -/
theorem expand_eq_ok_of_chars {p q : Passage} (h : p.chars = q.chars) {cs : List Char}
    (hp : entities.expand context p = .ok cs) : entities.expand context q = .ok cs := by
  unfold expand at hp ⊢
  obtain ⟨parts, hparts, hcs⟩ := flatten_mapM_eq_ok_iff.1 hp
  refine flatten_mapM_eq_ok_iff.2 ⟨parts, ?_, hcs⟩
  exact forall₂_of_sameText expandPiece_of_sameText (h ▸ pieces_sameText p.offset q.offset p.chars) hparts

end Entities

theorem replacementText_eq_ok_of_chars {p q : Passage} (h : p.chars = q.chars) {cs : List Char}
    (hp : replacementText p = .ok cs) : replacementText q = .ok cs := by
  unfold replacementText at hp ⊢
  obtain ⟨parts, hparts, hcs⟩ := flatten_mapM_eq_ok_iff.1 hp
  refine flatten_mapM_eq_ok_iff.2 ⟨parts, ?_, hcs⟩
  exact forall₂_of_sameText replacementPiece_of_sameText (h ▸ pieces_sameText p.offset q.offset p.chars) hparts

/-! ### Respelling -/

namespace Entities

/-- What the value of an attribute expands to. -/
def Expands (entities : Entities) (cs text : List Char) : Prop :=
  ∃ o, entities.expand .attributeValue ⟨o, cs⟩ = .ok text

variable {run written cs text : List Char}

theorem expands_iff {p : Passage} : entities.Expands p.chars text ↔ entities.expand .attributeValue p = .ok text :=
  ⟨fun ⟨o, h⟩ => expand_eq_ok_of_chars (p := ⟨o, p.chars⟩) (q := p) rfl h, fun h => ⟨p.offset, h⟩⟩

private theorem expands_iff_pieces (o : Nat) : entities.Expands cs text ↔ ∃ parts,
    List.Forall₂ (fun p part => entities.expandPiece .attributeValue p = .ok part) (pieces o cs) parts ∧
      text = parts.flatten :=
  (expands_iff (p := ⟨o, cs⟩)).trans flatten_mapM_eq_ok_iff

private theorem expands_of_not_mem_iff (hrun : '&' ∉ run) : entities.Expands run text ↔ text = spaceOut run := by
  rw [expands_iff_pieces 0]
  by_cases hne : run = []
  · simp [hne, spaceOut]
  · simp [pieces_of_not_mem 0 hrun hne, List.forall₂_cons_left_iff, expandPiece, eq_comm]

private theorem expands_lastAmpersand_iff (hrun : '&' ∉ run) :
    entities.Expands (run ++ ['&']) text ↔ text = spaceOut run := by
  rw [expands_iff_pieces 0, pieces_lastAmpersand 0 hrun]
  simp [List.forall₂_cons_left_iff, expandPiece, eq_comm]

private theorem not_expands_unclosed (hrun : '&' ∉ run) (hne : cs ≠ []) (hcs : ';' ∉ cs) :
    ¬ entities.Expands (run ++ '&' :: cs) text := by
  rw [expands_iff_pieces 0, pieces_unclosed 0 hrun hne hcs]
  simp [List.forall₂_cons_left_iff, expandPiece]

private theorem expands_reference_iff (hrun : '&' ∉ run) (hwritten : ';' ∉ written) :
    entities.Expands (run ++ '&' :: (written ++ ';' :: cs)) text ↔ ∃ part rest,
      entities.expandPiece .attributeValue (.reference ⟨0, written⟩) = .ok part ∧ entities.Expands cs rest ∧
        text = spaceOut run ++ part ++ rest := by
  rw [expands_iff_pieces 0, pieces_reference 0 hrun hwritten]
  constructor
  · rintro ⟨parts, hparts, rfl⟩
    obtain ⟨first, others, hfirst, hothers, rfl⟩ := List.forall₂_cons_left_iff.1 hparts
    obtain ⟨part, more, hpart, hmore, rfl⟩ := List.forall₂_cons_left_iff.1 hothers
    obtain rfl := Except.ok.inj hfirst
    refine ⟨part, more.flatten, expandPiece_of_sameText (.reference _ 0 written) hpart, ?_, ?_⟩
    · exact (expands_iff_pieces _).2 ⟨more, hmore, rfl⟩
    · simp
  · rintro ⟨part, rest, hpart, hrest, rfl⟩
    obtain ⟨more, hmore, rfl⟩ := (expands_iff_pieces (0 + utf8Size run + 1 + utf8Size written + 1)).1 hrest
    refine ⟨spaceOut run :: part :: more, .cons rfl (.cons ?_ hmore), by simp⟩
    exact expandPiece_of_sameText (.reference 0 _ written) hpart

end Entities

/-- No reference is open at the end of the text. -/
inductive Closed : List Char → Prop
  | plain {run : List Char} (hrun : '&' ∉ run) : Closed run
  | reference {run written cs : List Char} (hrun : '&' ∉ run) (hwritten : ';' ∉ written) (hcs : Closed cs) :
    Closed (run ++ '&' :: (written ++ ';' :: cs))

/-- Between the two parts of a value stands a literal character: no white space, no ampersand, and not part of a
reference, as none is open in front of it, or none that could end. -/
structure IsLiteral (left : List Char) (c : Char) (right : List Char) : Prop where
  not_space : isSpace c = false
  ne_ampersand : c ≠ '&'
  outside : Closed left ∨ ';' ∉ c :: right

theorem spaceOut_append_cons {c : Char} (hc : isSpace c = false) (left right : List Char) :
    spaceOut (left ++ c :: right) = spaceOut left ++ c :: spaceOut right := by
  have hne : c ≠ '\r' ∧ c ≠ '\n' ∧ c ≠ '\t' := by
    refine ⟨?_, ?_, ?_⟩ <;> rintro rfl <;> exact absurd hc (by decide)
  fun_induction spaceOut left with
  | case1 => simp [spaceOut, hne]
  | case2 cs ih => simp [spaceOut, ih]
  | case3 d cs hd ih =>
    rw [List.cons_append, spaceOut, ih]
    · rfl
    · intro cs' hcr hcs
      rcases cs with _ | ⟨e, cs⟩
      · exact hne.2.1 (List.cons.inj hcs).1
      · exact hd cs hcr (by rw [(List.cons.inj hcs).1])

/-! ### References to characters -/

/-- The characters of which a reference to a character consists. -/
def isReferenceChar (c : Char) : Bool :=
  c.isDigit || 'a' ≤ c && c ≤ 'f' || 'A' ≤ c && c ≤ 'F' || ['#', 'x', '+'].contains c

private theorem isReferenceChar_of_digitValue? {base : Nat} {c : Char} {n : Nat} (h : digitValue? base c = some n) :
    isReferenceChar c := by
  unfold isReferenceChar
  by_cases hdigit : c.isDigit = true
  · simp [hdigit]
  by_cases hlower : ('a' ≤ c && c ≤ 'f') = true
  · simp [hlower]
  by_cases hupper : ('A' ≤ c && c ≤ 'F') = true
  · simp [hupper]
  · -- No digit has the value of the base.
    simp only [digitValue?, hdigit, hlower, hupper, Bool.false_eq_true, ↓reduceIte, Nat.lt_irrefl, reduceCtorEq] at h

private theorem isReferenceChar_of_mapM {base : Nat} {cs : List Char} {ns : List Nat}
    (h : cs.mapM (digitValue? base) = some ns) : ∀ c ∈ cs, isReferenceChar c := by
  induction cs generalizing ns with
  | nil => simp
  | cons c cs ih =>
    rw [List.mapM_cons] at h
    obtain ⟨n, hn, hrest⟩ := Option.bind_eq_some_iff.1 h
    obtain ⟨ms, hms, -⟩ := Option.bind_eq_some_iff.1 hrest
    exact List.forall_mem_cons.2 ⟨isReferenceChar_of_digitValue? hn, ih hms⟩

private theorem isReferenceChar_of_number? {base : Nat} {cs : List Char} {n : Nat} (h : number? base cs = some n) :
    ∀ c ∈ cs, isReferenceChar c := by
  simp only [number?, Option.ite_none_left_eq_some, Option.map_eq_some_iff] at h
  obtain ⟨-, ns, hns, -⟩ := h
  split at hns
  · exact List.forall_mem_cons.2 ⟨rfl, isReferenceChar_of_mapM hns⟩
  · exact isReferenceChar_of_mapM hns

/-- A reference to a character is harmless wherever it stands. -/
theorem isReferenceChar_of_referent {cs : List Char} {c : Char} (h : referent cs = .character c) :
    ∀ d ∈ cs, isReferenceChar d := by
  unfold referent at h
  split at h
  · rename_i number
    refine List.forall_mem_cons.2 ⟨rfl, ?_⟩
    dsimp only at h
    split at h
    · rename_i _ _ hcode
      obtain ⟨n, hn, -⟩ := Option.bind_eq_some_iff.1 hcode
      split at hn
      · exact List.forall_mem_cons.2 ⟨rfl, isReferenceChar_of_number? hn⟩
      · exact isReferenceChar_of_number? hn
    · simp at h
  · simp at h

namespace Entities

variable {left right written text : List Char} {c : Char}

/-- Where no white space is, a value can be cut, and its parts expanded on their own. -/
private theorem exists_expands_of_append_cons (hleft : '&' ∉ left) (hspace : isSpace c = false) (hamp : c ≠ '&')
    (h : entities.Expands (left ++ c :: right) text) :
    ∃ rest, entities.Expands right rest ∧ text = spaceOut left ++ c :: rest := by
  have hcut : ∀ run, '&' ∉ run → '&' ∉ left ++ c :: run := by
    intro run hrun
    simp [hleft, hrun, hamp.symm]
  induction right using induction_pieces with
  | nil =>
    rw [expands_of_not_mem_iff (hcut [] (by simp)), spaceOut_append_cons hspace] at h
    exact ⟨[], (expands_of_not_mem_iff (by simp)).2 rfl, h⟩
  | plain run hrun hne =>
    rw [expands_of_not_mem_iff (hcut run hrun), spaceOut_append_cons hspace] at h
    exact ⟨spaceOut run, (expands_of_not_mem_iff hrun).2 rfl, h⟩
  | last run hrun =>
    rw [← List.cons_append, ← List.append_assoc, expands_lastAmpersand_iff (hcut run hrun),
      spaceOut_append_cons hspace] at h
    exact ⟨spaceOut run, (expands_lastAmpersand_iff hrun).2 rfl, h⟩
  | unclosed run cs hrun hne hcs =>
    rw [← List.cons_append, ← List.append_assoc] at h
    exact absurd h (not_expands_unclosed (hcut run hrun) hne hcs)
  | reference run name cs hrun hname ih =>
    rw [← List.cons_append, ← List.append_assoc, expands_reference_iff (hcut run hrun) hname,
      spaceOut_append_cons hspace] at h
    obtain ⟨part, rest, hpart, hrest, rfl⟩ := h
    refine ⟨spaceOut run ++ part ++ rest, ?_, by simp⟩
    exact (expands_reference_iff hrun hname).2 ⟨part, rest, hpart, hrest, rfl⟩

private theorem Expands.respelled_of_closed (hleft : Closed left) (hspace : isSpace c = false) (hamp : c ≠ '&')
    (hwritten : referent written = .character c) (h : entities.Expands (left ++ c :: right) text) :
    entities.Expands (left ++ '&' :: (written ++ ';' :: right)) text := by
  have hclosed : ';' ∉ written := fun hmem => absurd (isReferenceChar_of_referent hwritten _ hmem) (by decide)
  induction hleft generalizing text with
  | plain hrun =>
    obtain ⟨rest, hrest, rfl⟩ := exists_expands_of_append_cons hrun hspace hamp h
    refine (expands_reference_iff hrun hclosed).2 ⟨[c], rest, ?_, hrest, by simp⟩
    simp only [expandPiece, hwritten]
  | reference hrun hname _ ih =>
    simp only [List.append_assoc, List.cons_append] at h ⊢
    rw [expands_reference_iff hrun hname] at h ⊢
    obtain ⟨part, rest, hpart, hrest, rfl⟩ := h
    exact ⟨part, rest, hpart, ih hrest, rfl⟩

/-- If there is an open reference that cannot end, then the value does not expand at all. -/
private theorem closed_of_expands (hend : ';' ∉ c :: right) (h : entities.Expands (left ++ c :: right) text) :
    Closed left := by
  induction left using induction_pieces generalizing text with
  | nil => exact .plain (by simp)
  | plain run hrun hne => exact .plain hrun
  | last run hrun =>
    rw [List.append_assoc] at h
    exact absurd h (not_expands_unclosed hrun (by simp) hend)
  | unclosed run cs hrun hne hcs =>
    rw [List.append_assoc] at h
    exact absurd h (not_expands_unclosed hrun (by simp) fun hmem => (List.mem_append.1 hmem).elim hcs hend)
  | reference run name cs hrun hname ih =>
    simp only [List.append_assoc, List.cons_append] at h
    rw [expands_reference_iff hrun hname] at h
    obtain ⟨part, rest, hpart, hrest, rfl⟩ := h
    exact .reference hrun hname (ih hrest)

theorem Expands.respelled (hliteral : IsLiteral left c right) (hwritten : referent written = .character c)
    (h : entities.Expands (left ++ c :: right) text) :
    entities.Expands (left ++ '&' :: (written ++ ';' :: right)) text := by
  have hclosed : Closed left := hliteral.outside.elim id fun hend => closed_of_expands hend h
  exact h.respelled_of_closed hclosed hliteral.not_space hliteral.ne_ampersand hwritten

end Entities

end MapMarkup.Xml
