import MapMarkup.Proofs.Reading

/-!
# What the calls of a reader say

A reader is called until it has finished, and may be called after that. The calls before the first one that reads no
token all read tokens, and the calls after that one find nothing to do (`Reader.StopsAt`). The events of any number of
calls are the start of the document, properly nested content and, where the reading has ended without an error, the end
of the document; and a checker that is fed them has as many open elements as the reader, apart from one whose start tag
is not complete (`Reader.calls_of_start`).
-/

namespace MapMarkup.Xml

open Event (nestAll? Content)

namespace Reader

/-- The reader after some calls. -/
def afterCalls (r : Reader) : Nat → Reader
  | 0 => r
  | n + 1 => (r.afterCalls n).advance.1

/-- The events and the outcome of a call. Calls are counted from 0. -/
def call (r : Reader) (k : Nat) : List Event × Outcome :=
  (r.afterCalls k).advance.2

/-- The token that a call reads. -/
def tokenOfCall (r : Reader) (k : Nat) : Option Token :=
  match (r.call k).2, (r.afterCalls k).lexer.next? with
  | .token, .ok (some (t, _)) => some t
  | _, _ => none

/-- The events of the first `n` calls. -/
def eventsOfCalls (r : Reader) : Nat → List Event
  | 0 => []
  | n + 1 => r.eventsOfCalls n ++ (r.call n).1

/-- The calls before number `i` read tokens, this call has another outcome, and all later ones find nothing to do. -/
structure StopsAt (r : Reader) (i : Nat) (outcome : Outcome) : Prop where
  before : ∀ k < i, (r.call k).2 = .token
  here : (r.call i).2 = outcome
  after : ∀ k, i < k → r.call k = ([], .finished)

/-- How the first `n` calls have gone: all of them have read tokens, or one of them has failed, or one of them has come
to the end of the document. The content of the document and the elements that it leaves open are given. -/
inductive Course (r : Reader) (n : Nat) (body : List Event) (opened : List ElementName) : Prop
  | reading (tokens : ∀ k < n, (r.call k).2 = .token) (said : r.eventsOfCalls n = .startDocument :: body)
  | failed {i : Nat} {e : ReadError} (hi : i < n) (stops : r.StopsAt i (.failed e))
    (said : r.eventsOfCalls n = .startDocument :: body)
  | ended {i : Nat} (hi : i < n) (stops : r.StopsAt i .finished) (closed : opened = [])
    (said : r.eventsOfCalls n = .startDocument :: body ++ [.endDocument])

/-! ### One call -/

theorem advance_of_finished {r : Reader} (h : r.stage = .finished) : r.advance = (r, [], .finished) := by
  simp [advance, h]

/-- A call that does not find the reader finished. A token that fails leaves the reader as it was and says nothing,
since that is how tokens are taken (`token_eq`). -/
theorem advance_eq {r : Reader} (h : r.stage ≠ .finished) :
    r.advance =
      match r.lexer.next? with
      | .error e => ({ r with stage := .finished }, r.opening, .failed (.malformed e))
      | .ok none =>
        match r.opened with
        | [] => ({ r with stage := .finished }, r.opening ++ [.endDocument], .finished)
        | e :: _ => ({ r with stage := .finished }, r.opening, .failed (.unclosedElement e.span))
      | .ok (some (t, lexer)) =>
        match takeToken { r with lexer } t with
        | .error e => ({ r with stage := .finished }, r.opening, .failed e)
        | .ok (opened, entities, events) =>
          ({ r with lexer, opened, entities, stage := .reading }, r.opening ++ events, .token) := by
  unfold advance
  rw [if_neg h]
  cases r.lexer.next? with
  | error e => rfl
  | ok next =>
    cases next with
    | none => rfl
    | some taken =>
      obtain ⟨t, lexer⟩ := taken
      have htake := token_eq { r with lexer } r.opening t
      simp only [progress] at htake
      simp only [htake]
      cases takeToken { r with lexer } t <;> rfl

theorem advance_of_token {r : Reader} {t : Token} {lexer : Lexer} {opened : OpenElements} {entities : Entities}
    {events : List Event} (hs : r.stage ≠ .finished) (hl : r.lexer.next? = .ok (some (t, lexer)))
    (ht : takeToken { r with lexer } t = .ok (opened, entities, events)) :
    r.advance = ({ r with lexer, opened, entities, stage := .reading }, r.opening ++ events, .token) := by
  rw [advance_eq hs]
  simp only [hl, ht]

theorem advance_of_failed {r : Reader} {t : Token} {lexer : Lexer} {e : ReadError} (hs : r.stage ≠ .finished)
    (hl : r.lexer.next? = .ok (some (t, lexer))) (ht : takeToken { r with lexer } t = .error e) :
    r.advance = ({ r with stage := .finished }, r.opening, .failed e) := by
  rw [advance_eq hs]
  simp only [hl, ht]

theorem advance_of_atEnd {r : Reader} (hs : r.stage ≠ .finished) (hl : r.lexer.next? = .ok none) (ho : r.opened = []) :
    r.advance = ({ r with stage := .finished }, r.opening ++ [.endDocument], .finished) := by
  rw [advance_eq hs]
  simp only [hl, ho]

/-- A call that does not find the reader finished fails, or comes to the end of the document, or reads a token. -/
theorem advance_cases {r : Reader} (h : r.stage ≠ .finished) :
    (∃ e, r.advance = ({ r with stage := .finished }, r.opening, .failed e)) ∨
    (r.opened = [] ∧ r.advance = ({ r with stage := .finished }, r.opening ++ [.endDocument], .finished)) ∨
    ∃ t lexer opened entities events, r.lexer.next? = .ok (some (t, lexer)) ∧
      takeToken { r with lexer } t = .ok (opened, entities, events) ∧
      r.advance = ({ r with lexer, opened, entities, stage := .reading }, r.opening ++ events, .token) := by
  rw [advance_eq h]
  split
  · exact .inl ⟨_, rfl⟩
  · split
    · rename_i ho; exact .inr (.inl ⟨ho, rfl⟩)
    · exact .inl ⟨_, rfl⟩
  · rename_i t lexer hl
    split
    · exact .inl ⟨_, rfl⟩
    · rename_i opened entities events ht
      exact .inr (.inr ⟨t, lexer, opened, entities, events, hl, ht, rfl⟩)

theorem stage_of_ne_token {r : Reader} (h : r.advance.2.2 ≠ .token) : r.advance.1.stage = .finished := by
  by_cases hs : r.stage = .finished
  · rw [advance_of_finished hs]; exact hs
  · rcases advance_cases hs with ⟨e, he⟩ | ⟨-, he⟩ | ⟨t, lexer, opened, entities, events, -, -, he⟩
    · rw [he]
    · rw [he]
    · rw [he] at h; exact absurd rfl h

theorem stage_of_token {r : Reader} (h : r.advance.2.2 = .token) : r.advance.1.stage = .reading := by
  by_cases hs : r.stage = .finished
  · rw [advance_of_finished hs] at h; simp at h
  · rcases advance_cases hs with ⟨e, he⟩ | ⟨-, he⟩ | ⟨t, lexer, opened, entities, events, -, -, he⟩
    · rw [he] at h; simp at h
    · rw [he] at h; simp at h
    · rw [he]

/-- A call that reads a token gives the events of the token. -/
theorem exists_of_call_token {r : Reader} {k : Nat} (h : (r.call k).2 = .token) :
    ∃ t lexer opened entities events, r.tokenOfCall k = some t ∧
      (r.afterCalls k).lexer.next? = .ok (some (t, lexer)) ∧
      takeToken { r.afterCalls k with lexer } t = .ok (opened, entities, events) ∧
      (r.call k).1 = (r.afterCalls k).opening ++ events ∧
      r.afterCalls (k + 1) = { r.afterCalls k with lexer, opened, entities, stage := .reading } := by
  have htoken : (r.afterCalls k).advance.2.2 = .token := h
  by_cases hs : (r.afterCalls k).stage = .finished
  · rw [advance_of_finished hs] at htoken
    simp at htoken
  · rcases advance_cases hs with ⟨e, he⟩ | ⟨-, he⟩ | ⟨t, lexer, opened, entities, events, hl, ht, he⟩
    · rw [he] at htoken
      simp at htoken
    · rw [he] at htoken
      simp at htoken
    · refine ⟨t, lexer, opened, entities, events, ?_, hl, ht, congrArg (·.2.1) he, congrArg (·.1) he⟩
      rw [tokenOfCall, h, hl]

theorem call_of_tokenOfCall {r : Reader} {k : Nat} {t : Token} (h : r.tokenOfCall k = some t) :
    (r.call k).2 = .token := by
  unfold tokenOfCall at h
  split at h
  · assumption
  · simp at h

/-! ### Several calls -/

theorem afterCalls_of_finished {r : Reader} {i k : Nat} (h : (r.afterCalls i).stage = .finished) (hik : i ≤ k) :
    r.afterCalls k = r.afterCalls i := by
  induction k with
  | zero => rw [Nat.le_zero.1 hik]
  | succ k ih =>
    rcases Nat.lt_or_eq_of_le hik with hlt | rfl
    · have hk := ih (Nat.lt_succ_iff.1 hlt)
      show (r.afterCalls k).advance.1 = _
      rw [hk, advance_of_finished h]
    · rfl

theorem call_of_finished {r : Reader} {i k : Nat} (h : (r.afterCalls i).stage = .finished) (hik : i ≤ k) :
    r.call k = ([], .finished) := by
  unfold call
  rw [afterCalls_of_finished h hik, advance_of_finished h]

theorem stopsAt_of_ne_token {r : Reader} {i : Nat} {outcome : Outcome} (hb : ∀ k < i, (r.call k).2 = .token)
    (hi : (r.call i).2 = outcome) (ho : outcome ≠ .token) : r.StopsAt i outcome where
  before := hb
  here := hi
  after k hk := by
    have hs : (r.afterCalls (i + 1)).stage = .finished := stage_of_ne_token (by rw [← hi] at ho; exact ho)
    exact call_of_finished hs hk

theorem stage_ne_of_token {r : Reader} {k : Nat} (h : (r.call k).2 = .token) : (r.afterCalls k).stage ≠ .finished := by
  intro hs
  rw [call_of_finished hs (Nat.le_refl k)] at h
  simp at h

theorem stage_ne_of_before {source : List Char} {systemId : Option String} {k : Nat}
    (h : ∀ j < k, ((start source systemId).call j).2 = .token) :
    ((start source systemId).afterCalls k).stage ≠ .finished := by
  cases k with
  | zero => exact Stage.noConfusion
  | succ k =>
    have hstage : ((start source systemId).afterCalls (k + 1)).stage = .reading := stage_of_token (h k (Nat.lt_succ_self k))
    rw [hstage]
    exact Stage.noConfusion

/-- Calls read tokens only before the reading stops. -/
theorem StopsAt.lt_of_token {r : Reader} {i k : Nat} {outcome : Outcome} (h : r.StopsAt i outcome)
    (ho : outcome ≠ .token) (hk : (r.call k).2 = .token) : k < i := by
  rcases Nat.lt_trichotomy k i with hlt | rfl | hgt
  · exact hlt
  · exact absurd (h.here.symm.trans hk) ho
  · rw [h.after k hgt] at hk
    simp at hk

/-- Reading stops once. -/
theorem StopsAt.unique {r : Reader} {i j : Nat} {outcome outcome' : Outcome} (h : r.StopsAt i outcome)
    (h' : r.StopsAt j outcome') (ho : outcome ≠ .token) (ho' : outcome' ≠ .token) : i = j ∧ outcome = outcome' := by
  rcases Nat.lt_trichotomy i j with hlt | rfl | hgt
  · exact absurd (h.here.symm.trans (h'.before i hlt)) ho
  · exact ⟨rfl, h.here.symm.trans h'.here⟩
  · exact absurd (h'.here.symm.trans (h.before j hgt)) ho'

/-- Calls that read tokens use up the text. -/
private theorem length_afterCalls {r : Reader} {n : Nat} (h : ∀ k < n, (r.call k).2 = .token) :
    (r.afterCalls n).lexer.cursor.rest.length + n ≤ r.lexer.cursor.rest.length := by
  induction n with
  | zero => exact Nat.le_refl _
  | succ n ih =>
    have hn := ih fun k hk => h k (Nat.lt_succ_of_lt hk)
    have hlast : (r.afterCalls n).advance.2.2 = .token := h n (Nat.lt_succ_self n)
    have hlt : (r.afterCalls (n + 1)).lexer.cursor.rest.length < (r.afterCalls n).lexer.cursor.rest.length :=
      length_of_advance (Prod.ext rfl (Prod.ext rfl hlast))
    omega

private theorem tokens_or_stopsAt (r : Reader) (n : Nat) :
    (∀ k < n, (r.call k).2 = .token) ∨ ∃ i < n, ∃ outcome, outcome ≠ .token ∧ r.StopsAt i outcome := by
  induction n with
  | zero => exact .inl (by simp)
  | succ n ih =>
    rcases ih with ht | ⟨i, hi, hstop⟩
    · by_cases hn : (r.call n).2 = .token
      · refine .inl fun k hk => ?_
        rcases Nat.lt_succ_iff_lt_or_eq.1 hk with hlt | rfl
        · exact ht k hlt
        · exact hn
      · exact .inr ⟨n, Nat.lt_succ_self n, _, hn, stopsAt_of_ne_token ht rfl hn⟩
    · exact .inr ⟨i, Nat.lt_succ_of_lt hi, hstop⟩

/-- There are no more calls that read tokens than characters in the text. -/
theorem exists_stopsAt (source : List Char) (systemId : Option String) :
    ∃ i ≤ source.length, ∃ outcome, outcome ≠ .token ∧ (start source systemId).StopsAt i outcome := by
  rcases tokens_or_stopsAt (start source systemId) (source.length + 1) with ht | ⟨i, hi, hstop⟩
  · have hlength := length_afterCalls ht
    have hsource : (start source systemId).lexer.cursor.rest.length ≤ source.length :=
      Cursor.Reaches.length_le (c := Cursor.start source) ⟨_, rfl⟩
    omega
  · exact ⟨i, Nat.lt_succ_iff.1 hi, hstop⟩

theorem before_of_call_token {source : List Char} {systemId : Option String} {k : Nat}
    (h : ((start source systemId).call k).2 = .token) : ∀ j < k, ((start source systemId).call j).2 = .token := by
  obtain ⟨i, -, outcome, ho, hstops⟩ := exists_stopsAt source systemId
  intro j hj
  exact hstops.before j (Nat.lt_trans hj (hstops.lt_of_token ho h))

/-- What holds after some calls: there is a document that has been read so far, and who keeps account of its open
elements agrees with it. -/
def Account (r : Reader) (n : Nat) : Prop :=
  ∃ body opened, Content [] body opened ∧ Agree (r.afterCalls n).lexer.phase (r.afterCalls n).opened opened ∧
    r.Course n body opened

/-- A call of a reader that has not finished. -/
private theorem account_of_call {r : Reader} {n : Nat} {body : List Event} {opened : List ElementName}
    (hs : (r.afterCalls n).stage ≠ .finished) (ht : ∀ k < n, (r.call k).2 = .token)
    (hsaid : r.eventsOfCalls n ++ (r.afterCalls n).opening = .startDocument :: body) (hc : Content [] body opened)
    (ha : Agree (r.afterCalls n).lexer.phase (r.afterCalls n).opened opened) : r.Account (n + 1) := by
  rcases advance_cases hs with ⟨e, he⟩ | ⟨ho, he⟩ | ⟨t, lexer, openedAfter, entities, events, hl, htake, he⟩
  · have hcall : r.call n = ((r.afterCalls n).opening, .failed e) := congrArg Prod.snd he
    have hstop : r.StopsAt n (.failed e) := stopsAt_of_ne_token ht (by rw [hcall]) (by simp)
    refine ⟨body, opened, hc, ?_, .failed (Nat.lt_succ_self n) hstop ?_⟩
    · simpa only [afterCalls, he] using ha
    · simpa only [eventsOfCalls, hcall] using hsaid
  · have hcall : r.call n = ((r.afterCalls n).opening ++ [.endDocument], .finished) := congrArg Prod.snd he
    have hstop : r.StopsAt n .finished := stopsAt_of_ne_token ht (by rw [hcall]) (by simp)
    have hopened : opened = [] := by
      have := ha.length_eq
      rw [ho] at this
      exact List.eq_nil_of_length_eq_zero (Nat.eq_zero_of_add_eq_zero_right this)
    refine ⟨body, opened, hc, ?_, .ended (Nat.lt_succ_self n) hstop hopened ?_⟩
    · simpa only [afterCalls, he] using ha
    · simp only [eventsOfCalls, hcall, ← List.append_assoc, hsaid]
  · have hcall : r.call n = ((r.afterCalls n).opening ++ events, .token) := congrArg Prod.snd he
    -- The reader that takes the token has moved on in the text, but has the same elements open.
    have hr : Agree (r.afterCalls n).lexer.phase { r.afterCalls n with lexer }.opened opened := ha
    obtain ⟨opened', hevents, ha'⟩ := hr.takeToken (Lexer.goes_of_next? hl) htake
    refine ⟨body ++ events, opened', hc.append hevents, ?_, .reading ?_ ?_⟩
    · simpa only [afterCalls, he] using ha'
    · intro k hk
      rcases Nat.lt_succ_iff_lt_or_eq.1 hk with hlt | rfl
      · exact ht k hlt
      · rw [hcall]
    · simp only [eventsOfCalls, hcall, ← List.append_assoc, hsaid, List.cons_append]

/-- A call of a reader that has finished. -/
private theorem account_of_stopsAt {r : Reader} {n i : Nat} {outcome : Outcome} (h : r.StopsAt i outcome)
    (ho : outcome ≠ .token) (hi : i < n) :
    r.afterCalls (n + 1) = r.afterCalls n ∧ r.eventsOfCalls (n + 1) = r.eventsOfCalls n := by
  have hs : (r.afterCalls (i + 1)).stage = .finished := stage_of_ne_token (h.here ▸ ho)
  constructor
  · rw [afterCalls_of_finished hs (by omega : i + 1 ≤ n + 1), afterCalls_of_finished hs hi]
  · rw [eventsOfCalls, h.after n hi, List.append_nil]

theorem account (source : List Char) (systemId : Option String) (n : Nat) :
    (Reader.start source systemId).Account (n + 1) := by
  induction n with
  | zero => exact account_of_call (by simp [afterCalls, start]) (by simp) rfl (.nil []) (.outside (.inl trivial))
  | succ n ih =>
    obtain ⟨body, opened, hc, ha, hcourse⟩ := ih
    cases hcourse with
    | reading ht hsaid =>
      have hs : ((Reader.start source systemId).afterCalls (n + 1)).stage = .reading :=
        stage_of_token (ht n (Nat.lt_succ_self n))
      refine account_of_call (by simp [hs]) ht ?_ hc ha
      simp [opening, hs, hsaid]
    | failed hi hstop hsaid =>
      obtain ⟨hr, he⟩ := account_of_stopsAt hstop (by simp) hi
      exact ⟨body, opened, hc, hr ▸ ha, .failed (Nat.lt_succ_of_lt hi) hstop (he.trans hsaid)⟩
    | ended hi hstop hclosed hsaid =>
      obtain ⟨hr, he⟩ := account_of_stopsAt hstop (by simp) hi
      exact ⟨body, opened, hc, hr ▸ ha, .ended (Nat.lt_succ_of_lt hi) hstop hclosed (he.trans hsaid)⟩

/-- Any number of calls on a document says that the document starts, then properly nested content in which each end has
the URI and the name of its start, and, if and only if the end of the document has been reached without an error, that
the document ends, with no element open. The depth of a checker that is fed this, whatever its state was, is the number
of elements that the reader keeps, or one less while a start tag has not been completed. Sooner or later a call fails or
comes to the end of the document. -/
theorem calls_of_start (source : List Char) (systemId : Option String) (n : Nat) (s : Rules.State) :
    let r := Reader.start source systemId
    let reached := r.afterCalls (n + 1)
    (∃ i ≤ source.length, ∃ outcome, outcome ≠ .token ∧ r.StopsAt i outcome) ∧
    ∃ body opened, Content [] body opened ∧ r.Course (n + 1) body opened ∧
      (s.run (r.eventsOfCalls (n + 1))).depth + (if reached.lexer.phase.isInTag then 1 else 0) =
        reached.opened.length := by
  intro r reached
  refine ⟨exists_stopsAt source systemId, ?_⟩
  obtain ⟨body, opened, hc, ha, hcourse⟩ := account source systemId n
  refine ⟨body, opened, hc, hcourse, ?_⟩
  have hbody : (s.run (.startDocument :: body)).depth = opened.length := by
    rw [Rules.State.run_cons]
    exact Rules.State.depth_run hc.nested rfl
  have hdepth : (s.run (r.eventsOfCalls (n + 1))).depth = opened.length := by
    cases hcourse with
    | reading _ hsaid => rw [hsaid, hbody]
    | failed _ _ hsaid => rw [hsaid, hbody]
    | ended _ _ hclosed hsaid =>
      rw [hsaid, Rules.State.run_append, hclosed]
      rfl
  rw [hdepth]
  exact ha.length_eq

end Reader

end MapMarkup.Xml
