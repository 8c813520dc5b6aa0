import MapMarkup.Checking
import MapMarkup.Diagnostic.Collector
import MapMarkup.Proofs.Documents
import MapMarkup.Proofs.Run

/-!
# Calls that fail

A token is taken piece by piece, and what a piece does is not undone when a later one fails. But the pieces that do
something come behind those that can fail (`Reader.token_eq`). So if a call fails, then nothing of its token gets to the
checker, whatever the part of the token at which it fails, and the reader has no more than it had before:
`Reader.call_of_failed`. Only the first call says something although it fails, namely that the document starts. So a
checker that is fed the calls on a document ends up as it was in front of the failing call, however many calls follow
(`Checker.afterCalls_of_failed`).
-/

namespace MapMarkup

namespace Xml.Reader

variable {r : Reader} {k : Nat} {e : ReadError}

/-- What a failing call leaves behind. -/
theorem call_of_failed (h : (r.call k).2 = .failed e) :
    (r.call k).1 = (r.afterCalls k).opening ∧ r.afterCalls (k + 1) = { r.afterCalls k with stage := .finished } := by
  have hfailed : (r.afterCalls k).advance.2.2 = .failed e := h
  by_cases hs : (r.afterCalls k).stage = .finished
  · rw [advance_of_finished hs] at hfailed
    simp at hfailed
  · rcases advance_cases hs with ⟨e', he⟩ | ⟨-, he⟩ | ⟨t, lexer, opened, entities, events, -, -, he⟩
    · exact ⟨congrArg (·.2.1) he, congrArg (·.1) he⟩
    · rw [he] at hfailed
      simp at hfailed
    · rw [he] at hfailed
      simp at hfailed

/-- A call fails because the markup is malformed, because the text ends inside an element, or because the token that it
reads cannot be taken. -/
theorem failure_cases (h : (r.call k).2 = .failed e) :
    (∃ malformed, (r.afterCalls k).lexer.next? = .error malformed ∧ e = .malformed malformed) ∨
    ((r.afterCalls k).lexer.next? = .ok none ∧
      ∃ element outer, (r.afterCalls k).opened = element :: outer ∧ e = .unclosedElement element.span) ∨
    ∃ t lexer, (r.afterCalls k).lexer.next? = .ok (some (t, lexer)) ∧
      takeToken { r.afterCalls k with lexer } t = .error e := by
  have hs : (r.afterCalls k).stage ≠ .finished := fun hs => by
    rw [call_of_finished hs (Nat.le_refl k)] at h
    exact Outcome.noConfusion h
  rw [call, advance_eq hs] at h
  split at h
  · rename_i malformed hl
    exact .inl ⟨malformed, hl, (Outcome.failed.inj h).symm⟩
  · rename_i hl
    split at h
    · simp at h
    · rename_i element outer ho
      exact .inr (.inl ⟨hl, element, outer, ho, (Outcome.failed.inj h).symm⟩)
  · rename_i t lexer hl
    split at h
    · rename_i e' ht
      obtain rfl := Outcome.failed.inj h
      exact .inr (.inr ⟨t, lexer, hl, ht⟩)
    · simp at h

/-- There is one failing call at most, and it is the one at which the reading stops. -/
theorem stopsAt_of_failed {source : List Char} {systemId : Option String}
    (h : ((start source systemId).call k).2 = .failed e) : (start source systemId).StopsAt k (.failed e) := by
  obtain ⟨i, -, outcome, ho, hstops⟩ := exists_stopsAt source systemId
  rcases Nat.lt_trichotomy k i with hlt | rfl | hgt
  · have := hstops.before k hlt
    simp [h] at this
  · obtain rfl := h.symm.trans hstops.here
    exact hstops
  · have := hstops.after k hgt
    simp [this] at h

/-- Only the first call starts the document. -/
theorem opening_afterCalls (source : List Char) (systemId : Option String)
    (h : ∀ j < k, ((start source systemId).call j).2 = .token) :
    ((start source systemId).afterCalls k).opening = if k = 0 then [.startDocument] else [] := by
  cases k with
  | zero => rfl
  | succ k =>
    have hs : ((start source systemId).afterCalls (k + 1)).stage = .reading := stage_of_token (h k (Nat.lt_succ_self k))
    rw [opening, hs]
    rfl

/-- The calls after the one at which the reading stops have no events. -/
private theorem StopsAt.eventsOfCalls_eq {i n : Nat} {outcome : Outcome} (h : r.StopsAt i outcome) (hn : i < n) :
    r.eventsOfCalls n = r.eventsOfCalls (i + 1) := by
  induction n with
  | zero => simp at hn
  | succ n ih =>
    rcases Nat.lt_succ_iff_lt_or_eq.1 hn with hlt | rfl
    · rw [eventsOfCalls, h.after n hlt, List.append_nil, ih hlt]
    · rfl

/-- Past a failing call the reader stays the same. -/
theorem afterCalls_eq_of_failed (h : (r.call k).2 = .failed e) {n : Nat} (hn : k < n) :
    r.afterCalls n = { r.afterCalls k with stage := .finished } := by
  obtain ⟨-, hnext⟩ := call_of_failed h
  rw [← hnext]
  exact afterCalls_of_finished (by rw [hnext]) hn

end Xml.Reader

namespace Checker

open Xml (Reader ReadError)

variable {σ : Type} [Sink σ] {m : Type → Type} [Monad m]

/-- The checker after the events of the first `n` calls of a reader. -/
def afterCalls (css : CssParser m) (c : Checker σ) (r : Reader) : Nat → m (Checker σ)
  | 0 => return c
  | n + 1 => do (← c.afterCalls css r n).feedAll css (r.call n).1

section

variable [LawfulMonad m] (css : CssParser m) (c : Checker σ) (r : Reader)

theorem feedAll_append (es fs : List Event) :
    c.feedAll css (es ++ fs) = c.feedAll css es >>= fun d => d.feedAll css fs := by
  simp only [feedAll, List.foldlM_append]

theorem afterCalls_eq (n : Nat) : c.afterCalls css r n = c.feedAll css (r.eventsOfCalls n) := by
  induction n with
  | zero => rfl
  | succ n ih => rw [afterCalls, ih, Reader.eventsOfCalls, feedAll_append]

/-- The start of a document moves the state on and says nothing. -/
private theorem feedAll_singleton_startDocument :
    c.feedAll css [.startDocument] = pure { c with state := c.state.clear } := by
  rw [feedAll_eq]
  simp [Rules.State.runNotices, Rules.State.notices, Rules.State.run, Rules.State.next]

end

/-- A failing call changes nothing but for the start of the document, which belongs to the very first call: the checker
that it is given and the entities are the same after it as before it, and no later call changes them. So a document at
which reading fails leaves the checker as it was in front of the token that could not be read. -/
theorem afterCalls_of_failed [LawfulMonad m] (css : CssParser m) (source : List Char) (systemId : Option String)
    {k : Nat} {e : ReadError} :
    let r := Reader.start source systemId
    let untouched (c : Checker σ) : Checker σ := if k = 0 then { c with state := c.state.clear } else c
    (r.call k).2 = .failed e →
      (∀ c : Checker σ, c.feedAll css (r.call k).1 = pure (untouched c)) ∧
      (∀ n > k, r.call n = ([], .finished) ∧ (r.afterCalls n).entities = (r.afterCalls k).entities ∧
        ∀ c : Checker σ, c.afterCalls css r n = untouched <$> c.afterCalls css r k) ∧
      ∀ c : Checker σ, c.read css source systemId = (fun d => (untouched d, some e)) <$> c.afterCalls css r k := by
  intro r untouched hfailed
  have hstops : r.StopsAt k (.failed e) := Reader.stopsAt_of_failed hfailed
  have hfed : ∀ c : Checker σ, c.feedAll css (r.call k).1 = pure (untouched c) := by
    intro c
    rw [(Reader.call_of_failed hfailed).1, Reader.opening_afterCalls source systemId hstops.before]
    by_cases hk : k = 0
    · rw [if_pos hk, feedAll_singleton_startDocument]
      exact congrArg pure (if_pos hk).symm
    · rw [if_neg hk]
      exact congrArg pure (if_neg hk).symm
  have hnext : ∀ c : Checker σ, c.afterCalls css r (k + 1) = untouched <$> c.afterCalls css r k := by
    intro c
    simp only [afterCalls, hfed, map_eq_pure_bind]
  refine ⟨hfed, fun n hn => ⟨hstops.after n hn, ?_, fun c => ?_⟩, fun c => ?_⟩
  · rw [Reader.afterCalls_eq_of_failed hfailed hn]
  · rw [afterCalls_eq, hstops.eventsOfCalls_eq hn, ← afterCalls_eq, hnext]
  · have hread : c.read css source systemId = (fun d => (d, r.error?)) <$> c.feedAll css r.events := by
      rw [read, map_eq_pure_bind]
    rw [hread, Reader.events_eq hstops (by simp), ← afterCalls_eq, hnext, Reader.error?_eq hstops (by simp),
      Functor.map_map]
    rfl

/-- The last of three attributes cannot be read, so the tag has no event. -/
theorem afterCalls_of_failed_lastAttribute :
    let source := "<a b='x' c='&lt;' d='&no;'/>".toList
    let r := Reader.start source none
    let c : Checker Collector := { sink := {} }
    (r.call 4).2 = .failed (.undefinedEntity ⟨22, "no".toList⟩) ∧
      c.read (m := Id) CssParser.none source none =
        (c.afterCalls (m := Id) CssParser.none r 4, some (.undefinedEntity ⟨22, "no".toList⟩)) := by
  intro source r c
  have hfailed : (r.call 4).2 = .failed (.undefinedEntity ⟨22, "no".toList⟩) := by decide +kernel
  exact ⟨hfailed, (afterCalls_of_failed (m := Id) CssParser.none source none hfailed).2.2 c⟩

end Checker

end MapMarkup
