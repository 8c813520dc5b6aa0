import MapMarkup.Xml.Lexer.Progress

/-!
# How far scans look ahead

Two texts that start alike and then go on as `U` and as `V` are scanned alike up to there, provided that `U` and `V`
start with the same quotation mark (`SameStart`): scans compare what is ahead with single characters and with texts
in which there is no quotation mark, so they do not look behind such a mark before they move over it. A scan that stops
in front of `U` therefore stops in front of `V`, with the same value apart from offsets (`Scan.Matches`). If `U` and `V`
are both empty, this says that a scan does not depend on where the text stands.
-/

namespace MapMarkup

/-! ### Runs of characters -/

section Runs

variable {x : Char} {run : List Char}

private theorem ne_of_mem (h : x ∉ run) : ∀ c ∈ run, decide (c ≠ x) = true := by
  intro c hc
  exact decide_eq_true fun hcx => h (hcx ▸ hc)

theorem takeWhile_append_cons (h : x ∉ run) (rest : List Char) : (run ++ x :: rest).takeWhile (· ≠ x) = run := by
  rw [List.takeWhile_append_of_pos (ne_of_mem h), List.takeWhile_cons_of_neg (by simp), List.append_nil]

theorem dropWhile_append_cons (h : x ∉ run) (rest : List Char) : (run ++ x :: rest).dropWhile (· ≠ x) = x :: rest := by
  rw [List.dropWhile_append_of_pos (ne_of_mem h), List.dropWhile_cons_of_neg (by simp)]

theorem takeWhile_of_not_mem (h : x ∉ run) : run.takeWhile (· ≠ x) = run := by
  have hall : (run ++ []).takeWhile (· ≠ x) = run ++ [].takeWhile (· ≠ x) := List.takeWhile_append_of_pos (ne_of_mem h)
  simpa using hall

theorem dropWhile_of_not_mem (h : x ∉ run) : run.dropWhile (· ≠ x) = [] := by
  have hall : (run ++ []).dropWhile (· ≠ x) = [].dropWhile (· ≠ x) := List.dropWhile_append_of_pos (ne_of_mem h)
  simpa using hall

theorem drop_length_takeWhile (p : Char → Bool) (cs : List Char) :
    cs.drop (cs.takeWhile p).length = cs.dropWhile p := by
  induction cs with
  | nil => rfl
  | cons c cs ih => cases hc : p c <;> simp [hc, ih]

end Runs

/-! ### Texts that go on differently -/

/-- Both texts are empty, or both start with the same quotation mark. -/
inductive SameStart : List Char → List Char → Prop
  | nil : SameStart [] []
  | quote {mark : Char} (hmark : mark = '"' ∨ mark = '\'') (cs ds : List Char) : SameStart (mark :: cs) (mark :: ds)

/-- A function of the text ahead that does not see how the text goes on. -/
def Blind {α : Type} (U V : List Char) (f : List Char → α) : Prop :=
  ∀ ahead, f (ahead ++ U) = f (ahead ++ V)

/-- There is no quotation mark in the text. -/
def Unquoted (cs : List Char) : Prop := '"' ∉ cs ∧ '\'' ∉ cs

instance (cs : List Char) : Decidable (Unquoted cs) :=
  inferInstanceAs (Decidable (_ ∧ _))

namespace SameStart

variable {U V : List Char}

theorem blind_isPrefixOf (h : SameStart U V) {cs : List Char} (hcs : Unquoted cs) : Blind U V cs.isPrefixOf := by
  cases h with
  | nil => exact fun _ => rfl
  | @quote mark hmark U V =>
    intro ahead
    induction ahead generalizing cs with
    | nil =>
      rcases cs with _ | ⟨d, cs⟩
      · rfl
      · have hd : (d == mark) = false := by
          rw [beq_eq_false_iff_ne]
          rintro rfl
          rcases hmark with rfl | rfl
          · exact hcs.1 List.mem_cons_self
          · exact hcs.2 List.mem_cons_self
        simp only [List.nil_append, List.isPrefixOf_cons_cons, hd, Bool.false_and]
    | cons a ahead ih =>
      rcases cs with _ | ⟨d, cs⟩
      · rfl
      · have hrest : Unquoted cs := 
          ⟨fun h => hcs.1 (List.mem_cons_of_mem d h), fun h => hcs.2 (List.mem_cons_of_mem d h)⟩
        simp only [List.cons_append, List.isPrefixOf_cons_cons, ih hrest]

theorem blind_head? (h : SameStart U V) : Blind U V List.head? := by
  intro ahead
  rcases ahead with _ | ⟨a, ahead⟩
  · cases h <;> rfl
  · rfl

/-- A part that leaves all of `U` is the same part of the other text, and leaves all of `V`. -/
theorem take_drop (h : SameStart U V) {n : Nat} {a a' : List Char} (hdrop : (a ++ U).drop n = a' ++ U) :
    (a ++ V).take n = (a ++ U).take n ∧ (a ++ V).drop n = a' ++ V := by
  cases h with
  | nil => exact ⟨rfl, hdrop⟩
  | quote hmark cs ds =>
    -- What is left starts with the mark, so the part does not reach as far as the mark.
    have hn : n ≤ a.length := by
      have := congrArg List.length hdrop
      simp only [List.length_drop, List.length_append, List.length_cons] at this
      omega
    rw [List.drop_append_of_le_length hn] at hdrop
    rw [List.take_append_of_le_length hn, List.take_append_of_le_length hn, List.drop_append_of_le_length hn,
      List.append_cancel_right hdrop]
    exact ⟨rfl, rfl⟩

end SameStart

namespace Scan

variable {ε α β γ δ : Type} {U V : List Char}

/-- Where the first scan moves from a text that goes on as `U` and stops in front of `U`, the second one moves over the
same characters of the text that goes on as `V`, and their values are related. -/
def Matches (U V : List Char) (R : α → β → Prop) (s : Scan ε α) (s' : Scan ε β) : Prop :=
  ∀ c c' a a' r, c.rest = a ++ U → c'.rest = a ++ V → s c = .ok r → r.next.rest = a' ++ U →
    ∃ r', s' c' = .ok r' ∧ R r.value r'.value ∧ r'.next.rest = a' ++ V

/-- The scan gives the same value for both texts. -/
abbrev Same (U V : List Char) (s : Scan ε α) : Prop := Matches U V (· = ·) s s

theorem bind_of_ok {s : Scan ε α} {f : α → Scan ε β} {c : Cursor} {r₁ : Scanned c α} {r₂ : Scanned r₁.next β}
    (h₁ : s c = .ok r₁) (h₂ : f r₁.value r₁.next = .ok r₂) :
    (s >>= f) c = .ok ⟨r₂.value, r₂.next, r₁.reaches.trans r₂.reaches⟩ := by
  simp only [Bind.bind, h₁, h₂]

theorem Matches.bind {R : α → β → Prop} {Q : γ → δ → Prop} {s : Scan ε α} {s' : Scan ε β} {f : α → Scan ε γ}
    {f' : β → Scan ε δ} (hs : Matches U V R s s') (hf : ∀ x y, R x y → Matches U V Q (f x) (f' y)) :
    Matches U V Q (s >>= f) (s' >>= f') := by
  intro c c' a a' r hc hc' h hr
  obtain ⟨r₁, h₁, r₂, h₂, hvalue, hnext⟩ := bind_eq_ok h
  rw [hnext] at hr
  obtain ⟨used, hused, -⟩ := r₂.reaches.split
  have hbetween : r₁.next.rest = (used ++ a') ++ U := by rw [hused, hr, List.append_assoc]
  obtain ⟨r₁', h₁', hR, hbetween'⟩ := hs c c' a (used ++ a') r₁ hc hc' h₁ hbetween
  obtain ⟨r₂', h₂', hQ, hr'⟩ := hf _ _ hR r₁.next r₁'.next (used ++ a') a' r₂ hbetween hbetween' h₂ hr
  exact ⟨_, bind_of_ok h₁' h₂', hvalue ▸ hQ, hr'⟩

theorem Same.bind {Q : γ → δ → Prop} {s : Scan ε α} {f : α → Scan ε γ} {f' : α → Scan ε δ} (hs : Same U V s)
    (hf : ∀ x, Matches U V Q (f x) (f' x)) : Matches U V Q (s >>= f) (s >>= f') :=
  Matches.bind hs fun x _ h => h ▸ hf x

theorem Matches.pure {R : α → β → Prop} {x : α} {y : β} (h : R x y) :
    Matches U V R (Pure.pure x : Scan ε α) (Pure.pure y : Scan ε β) := by
  intro c c' a a' r hc hc' hr hrest
  obtain rfl := Except.ok.inj hr
  rw [show a' = a from List.append_cancel_right (hrest.symm.trans hc)]
  exact ⟨⟨y, c', .refl c'⟩, rfl, h, hc'⟩

theorem Matches.fail {R : α → β → Prop} {s' : Scan ε β} (e : ε) : Matches U V R (Scan.fail e) s' := by
  intro c c' a a' r hc hc' h
  simp [Scan.fail] at h

theorem matches_position : Matches U V (fun _ _ => True) (position : Scan ε Position) position := by
  intro c c' a a' r hc hc' hr hrest
  obtain rfl := Except.ok.inj hr
  rw [show a' = a from List.append_cancel_right (hrest.symm.trans hc)]
  exact ⟨⟨c'.position, c', .refl c'⟩, rfl, trivial, hc'⟩

/-- What a scan makes of the text ahead, if it only asks whether there is any and with which character it starts. -/
theorem matches_ahead (h : SameStart U V) {Q : γ → δ → Prop} {f : List Char → Scan ε γ} {f' : List Char → Scan ε δ}
    (hnil : Matches U V Q (f []) (f' [])) (hcons : ∀ d cs cs', Matches U V Q (f (d :: cs)) (f' (d :: cs'))) :
    Matches U V Q (ahead >>= f) (ahead >>= f') := by
  intro c c' a a' r hc hc' hr hrest
  obtain ⟨r₁, h₁, r₂, h₂, hvalue, hnext⟩ := bind_eq_ok hr
  obtain rfl := Except.ok.inj h₁
  have hmatches : Matches U V Q (f c.rest) (f' c'.rest) := by
    rw [hc, hc']
    rcases a with _ | ⟨d, a⟩
    · cases h with
      | nil => exact hnil
      | quote => exact hcons _ _ _
    · exact hcons _ _ _
  obtain ⟨r', hr', hQ, hrest'⟩ := hmatches c c' a a' r₂ hc hc' h₂ (hnext ▸ hrest)
  have hahead : (ahead : Scan ε _) c' = .ok ⟨c'.rest, c', .refl c'⟩ := rfl
  exact ⟨_, bind_of_ok hahead hr', hvalue ▸ hQ, hrest'⟩

theorem matches_ahead_of_tail (h : SameStart U V) {R : γ → γ → Prop} {f : List Char → Scan ε γ}
    (htail : ∀ d cs cs', f (d :: cs) = f (d :: cs')) (hf : ∀ cs, Matches U V R (f cs) (f cs)) :
    Matches U V R (ahead >>= f) (ahead >>= f) :=
  matches_ahead h (hf []) fun d cs cs' => htail d cs cs' ▸ hf (d :: cs)

private theorem same_take (h : SameStart U V) (n : Nat) : Same U V (take n : Scan ε (List Char)) := by
  intro c c' a a' r hc hc' hr hrest
  obtain rfl := Except.ok.inj hr
  have hdrop : (a ++ U).drop n = a' ++ U := hc ▸ hrest
  refine ⟨⟨c'.rest.take n, c'.advance n, ⟨n, rfl⟩⟩, rfl, ?_⟩
  show c.rest.take n = c'.rest.take n ∧ c'.rest.drop n = a' ++ V
  rw [hc, hc']
  exact ⟨(h.take_drop hdrop).1.symm, (h.take_drop hdrop).2⟩

end Scan

namespace Xml.Lexeme

variable {U V : List Char}

private theorem before_append (h : SameStart U V) {stop : List Char → Bool} (hstop : Blind U V stop) {a a' : List Char}
    (hleft : (a ++ U).drop (before stop (a ++ U)).length = a' ++ U) : before stop (a ++ V) = before stop (a ++ U) := by
  induction a with
  | nil =>
    cases h with
    | nil => rfl
    | @quote mark hmark cs ds =>
      -- Otherwise the mark were part of the run, but all of `U` is left.
      have hnone : stop (mark :: cs) = true := by
        by_cases hs : stop (mark :: cs) = true
        · exact hs
        · have := congrArg List.length hleft
          simp only [List.nil_append, before, hs, Bool.false_eq_true, ↓reduceIte, List.length_drop, List.length_cons,
            List.length_append] at this
          omega
      have hnone' : stop (mark :: ds) = true := hnone ▸ (hstop []).symm
      simp only [List.nil_append, before, hnone, hnone', ↓reduceIte]
  | cons d a ih =>
    have hd : stop (d :: (a ++ V)) = stop (d :: (a ++ U)) := (hstop (d :: a)).symm
    simp only [List.cons_append, before, hd] at hleft ⊢
    split
    · rfl
    · rename_i hs
      simp only [hs, Bool.false_eq_true, ↓reduceIte, List.length_cons, List.drop_succ_cons] at hleft
      rw [ih hleft]

theorem takeWhile_eq_before (p : Char → Bool) (cs : List Char) :
    cs.takeWhile p = before (fun ds => ds.head?.any fun c => !p c) cs := by
  induction cs with
  | nil => rfl
  | cons c cs ih => cases hc : p c <;> simp [before, hc, ih]

open Scan (Matches Same matches_ahead matches_position same_take)

theorem same_takeWhile (h : SameStart U V) (p : Char → Bool) : Same U V (Scan.takeWhile p : Lexeme (List Char)) := by
  intro c c' a a' r hc hc' hr hrest
  obtain ⟨r₁, h₁, r₂, h₂, hvalue, hnext⟩ := Scan.bind_eq_ok hr
  obtain rfl := Except.ok.inj h₁
  have hrun : c'.rest.takeWhile p = c.rest.takeWhile p := by
    have hstop : Blind U V fun ds => ds.head?.any fun c => !p c :=
      fun ahead => congrArg (Option.any fun c => !p c) (h.blind_head? ahead)
    have hleft : c.rest.drop (c.rest.takeWhile p).length = a' ++ U := by
      obtain rfl := Except.ok.inj h₂
      exact (congrArg Cursor.rest hnext).symm.trans hrest
    rw [takeWhile_eq_before, hc] at hleft
    rw [takeWhile_eq_before, takeWhile_eq_before, hc, hc']
    exact before_append h hstop hleft
  obtain ⟨r', hr', hR, hrest'⟩ := same_take h _ c c' a a' r₂ hc hc' h₂ (hnext ▸ hrest)
  rw [← hrun] at hr'
  have hahead : (Scan.ahead : Lexeme _) c' = .ok ⟨c'.rest, c', .refl c'⟩ := rfl
  exact ⟨_, Scan.bind_of_ok hahead hr', hvalue ▸ hR, hrest'⟩

end Xml.Lexeme

namespace Xml

/-- The passages read the same. -/
def Passage.Alike (p q : Passage) : Prop := p.chars = q.chars

/-- The names are spelled alike. -/
structure QName.Alike (m n : QName) : Prop where
  qualifier : m.qualifier.Alike n.qualifier
  base : m.base.Alike n.base

end Xml

/-! ### The smallest parts -/

namespace Xml.Lexeme

open Scan (Matches Same matches_ahead matches_position same_take)

variable {U V : List Char} (h : SameStart U V)

include h

theorem same_sees {s : String} (hs : Unquoted s.toList) : Same U V (sees s) := by
  intro c c' a a' r hc hc' hr hrest
  obtain rfl := Except.ok.inj hr
  refine ⟨⟨s.toList.isPrefixOf c'.rest, c', .refl c'⟩, rfl, ?_, ?_⟩
  · show s.toList.isPrefixOf c.rest = s.toList.isPrefixOf c'.rest
    rw [hc, hc']
    exact h.blind_isPrefixOf hs a
  · rw [show a' = a from List.append_cancel_right (hrest.symm.trans hc)]
    exact hc'

theorem same_text {s : String} (hs : Unquoted s.toList) : Same U V (text s) := by
  refine (same_sees h hs).bind fun seen => ?_
  cases seen with
  | true => exact (same_take h _).bind fun _ => .pure rfl
  | false => exact matches_position.bind fun _ _ _ => .fail _

theorem same_charOf (wanted : List Char) : Same U V (charOf wanted) := by
  refine matches_ahead h (.fail _) fun d _ _ => ?_
  dsimp only
  split
  · exact (same_take h 1).bind fun _ => .pure rfl
  · exact matches_position.bind fun _ _ _ => .fail _

theorem same_char (x : Char) : Same U V (char x) :=
  (same_charOf h [x]).bind fun _ => .pure rfl

theorem same_spaces : Same U V spaces :=
  (same_takeWhile h isSpace).bind fun _ => .pure rfl

theorem same_someSpace : Same U V someSpace := by
  refine matches_ahead h (.fail _) fun d _ _ => ?_
  dsimp only
  split
  · exact same_spaces h
  · exact matches_position.bind fun _ _ _ => .fail _

theorem same_equals : Same U V equals :=
  (same_spaces h).bind fun _ => (same_char h '=').bind fun _ => same_spaces h

theorem same_quote : Same U V quote := by
  refine matches_ahead h (.fail _) fun d _ _ => ?_
  dsimp only
  split
  · exact (same_take h 1).bind fun _ => .pure rfl
  · exact matches_position.bind fun _ _ _ => .fail _

omit h in
private theorem matches_passage {s : Lexeme (List Char)} (hs : Same U V s) :
    Matches U V Passage.Alike (passage s) (passage s) :=
  matches_position.bind fun _ _ _ => hs.bind fun _ => .pure rfl

theorem matches_quotedText : Matches U V Passage.Alike quotedText quotedText :=
  (same_quote h).bind fun mark => (matches_passage (same_takeWhile h _)).bind fun _ _ hp =>
    (same_char h mark).bind fun _ => .pure hp

theorem matches_name : Matches U V Passage.Alike name name := by
  refine matches_ahead h (.fail _) fun d _ _ => ?_
  dsimp only
  split
  · exact matches_passage (same_takeWhile h isNameChar)
  · exact .fail _

theorem matches_qname : Matches U V QName.Alike qname qname := by
  refine (matches_passage (same_takeWhile h isNameChar)).bind ?_
  rintro ⟨o, cs⟩ ⟨o', _⟩ rfl
  dsimp only
  split
  · split
    · exact .pure ⟨rfl, rfl⟩
    · exact .fail _
  · split
    · exact .pure ⟨rfl, rfl⟩
    · exact .fail _

omit h in
theorem charsUntil_eq (stop : List Char → Bool) (c : Cursor) :
    charsUntil stop c =
      match (before stop c.rest).dropWhile isXmlChar with
      | d :: _ => .error (.unusableChar d (c.position.after ((before stop c.rest).takeWhile isXmlChar)))
      | [] => .ok ⟨⟨c.position.offset, c.rest.take (before stop c.rest).length⟩,
          c.advance (before stop c.rest).length, ⟨_, rfl⟩⟩ := by
  cases hrun : (before stop c.rest).dropWhile isXmlChar with
  | nil =>
    simp only [charsUntil, Scan.position, Scan.ahead, Bind.bind, hrun]
    rfl
  | cons d ds =>
    simp only [charsUntil, Scan.position, Scan.ahead, Bind.bind, hrun]
    rfl

theorem matches_charsUntil {stop : List Char → Bool} (hstop : Blind U V stop) :
    Matches U V Passage.Alike (charsUntil stop) (charsUntil stop) := by
  intro c c' a a' r hc hc' hr hrest
  rw [charsUntil_eq] at hr
  split at hr
  · simp at hr
  · rename_i hxml
    obtain rfl := Except.ok.inj hr
    have hleft : c.rest.drop (before stop c.rest).length = a' ++ U := hrest
    have hrun : before stop c'.rest = before stop c.rest := by
      rw [hc] at hleft
      rw [hc, hc']
      exact before_append h hstop hleft
    have htake : Same U V (Scan.take (before stop c.rest).length : Lexeme (List Char)) := same_take h _
    obtain ⟨r', hr', hvalue, hrest'⟩ := htake c c' a a' ⟨_, _, ⟨_, rfl⟩⟩ hc hc' rfl hrest
    obtain rfl := Except.ok.inj hr'
    rw [charsUntil_eq, hrun, hxml]
    exact ⟨_, rfl, hvalue, hrest'⟩

theorem matches_charsUntilText {s : String} (hs : Unquoted s.toList) :
    Matches U V Passage.Alike (charsUntilText s) (charsUntilText s) :=
  matches_charsUntil h (h.blind_isPrefixOf hs)

end Xml.Lexeme

end MapMarkup
