import Mathlib.Data.List.TakeWhile
import MapMarkup.Proofs.Lines
import MapMarkup.Proofs.Rereading
import MapMarkup.Proofs.TagEnds

/-!
# Writing a character as a reference

The value of an attribute may be replaced by any text without the quotation mark around it and without a `<`, and the
lexer gives the same attribute with the new value (`Production.givesAttribute_inTag`). In particular a literal character
may be written as a reference to it. Where the attribute is an ordinary one, the document says the same as before; but
the value of a declaration is taken as it is written, so events may name its namespace in the new spelling
(`Reader.events_respelled`).
-/

namespace MapMarkup.Xml

namespace Lexeme

variable {mark : Char} {c : Cursor}

/-! ### Quotation marks and what stands between them -/

theorem rest_of_quote {r : Scanned c Char} (h : quote c = .ok r) :
    (r.value = '"' ∨ r.value = '\'') ∧ c.rest = r.value :: r.next.rest := by
  simp only [quote, Scan.ahead, Bind.bind] at h
  rcases hc : c.rest with _ | ⟨d, ds⟩
  · simp [hc, Scan.fail] at h
  · by_cases hd : (d = '"' || d = '\'') = true
    · simp only [hc, hd, Scan.take, ↓reduceIte, pure, Except.ok.injEq] at h
      subst h
      exact ⟨by simpa using hd, by simp [hc]⟩
    · simp [hc, hd, Scan.fail, Scan.position] at h

private theorem exists_quote (hmark : mark = '"' ∨ mark = '\'') {ds : List Char} (hc : c.rest = mark :: ds) :
    ∃ r, quote c = .ok r ∧ r.value = mark ∧ r.next.rest = ds := by
  have hd : (mark = '"' || mark = '\'') = true := by simpa using hmark
  simp only [quote, Scan.ahead, Bind.bind, hc, hd, Scan.take, ↓reduceIte, pure]
  exact ⟨_, rfl, rfl, by simp [hc]⟩

private theorem exists_char {x : Char} {ds : List Char} (hc : c.rest = x :: ds) :
    ∃ r, char x c = .ok r ∧ r.next.rest = ds := by
  have hx : [x].contains x = true := by simp
  simp only [char, charOf, Scan.ahead, Bind.bind, hc, hx, Scan.take, ↓reduceIte, pure]
  exact ⟨_, rfl, by simp [hc]⟩

/-- Between two of these quotation marks the text may stand in the value of an attribute. -/
def FitsBetween (mark : Char) (cs : List Char) : Prop :=
  ∀ c ∈ cs, isXmlChar c ∧ c ≠ mark ∧ c ≠ '<'

/-- The value of an attribute goes on up to the quotation mark. -/
abbrev valueUntil (mark : Char) : Lexeme Passage :=
  charsUntil fun cs => cs.head? = some mark || cs.head? = some '<'

private theorem before_mark_eq (mark : Char) (cs : List Char) :
    before (fun ds => ds.head? = some mark || ds.head? = some '<') cs = cs.takeWhile fun d => d ≠ mark && d ≠ '<' := by
  rw [takeWhile_eq_before]
  congr 1
  funext ds
  rcases ds with _ | ⟨d, ds⟩ <;> simp

private theorem fits_of_valueUntil {r : Scanned c Passage} (h : valueUntil mark c = .ok r) :
    c.rest = r.value.chars ++ r.next.rest ∧ r.value.offset = c.position.offset ∧ FitsBetween mark r.value.chars := by
  unfold valueUntil at h
  rw [charsUntil_eq, before_mark_eq] at h
  split at h
  · simp at h
  · rename_i hxml
    obtain rfl := Except.ok.inj h
    have hrun : c.rest.take (c.rest.takeWhile fun d => d ≠ mark && d ≠ '<').length =
        c.rest.takeWhile fun d => d ≠ mark && d ≠ '<' :=
      (List.prefix_iff_eq_take.1 (List.takeWhile_prefix _)).symm
    refine ⟨(List.take_append_drop _ _).symm, rfl, fun d hd => ?_⟩
    dsimp only at hd
    rw [hrun] at hd
    have hstop := List.mem_takeWhile_imp hd
    exact ⟨List.dropWhile_eq_nil_iff.1 hxml d hd, by simpa using hstop⟩

private theorem exists_valueUntil {cs ds : List Char} (hcs : FitsBetween mark cs) (hc : c.rest = cs ++ mark :: ds) :
    ∃ r, valueUntil mark c = .ok r ∧ r.value.chars = cs ∧ r.next.rest = mark :: ds := by
  have hrun : (c.rest.takeWhile fun d => d ≠ mark && d ≠ '<') = cs := by
    rw [hc, List.takeWhile_append_of_pos fun d hd => by simpa using (hcs d hd).2]
    simp
  have hxml : cs.dropWhile isXmlChar = [] := List.dropWhile_eq_nil_iff.2 fun d hd => (hcs d hd).1
  unfold valueUntil
  rw [charsUntil_eq, before_mark_eq, hrun, hxml]
  exact ⟨_, rfl, by simp [hc], by simp [hc]⟩

end Lexeme

namespace Production

open Lexeme (FitsBetween)

variable {mark : Char} {name : QName} {value : Passage} {c : Cursor} {before after : List Char}

/-! ### Parts of start tags -/

/-- The scan gives an attribute. Behind `before` and a quotation mark stands the value, and then the mark again. -/
structure GivesAttribute (s : Lexeme Token) (c : Cursor) (name : QName) (value : Passage) (before : List Char)
    (mark : Char) (after : List Char) : Prop where
  mark_eq : mark = '"' ∨ mark = '\''
  rest_eq : c.rest = before ++ mark :: (value.chars ++ mark :: after)
  offset_eq : value.offset = c.position.offset + utf8Size (before ++ [mark])
  fits : FitsBetween mark value.chars
  /-- The scan gives the attribute with any other value in the place of this one. -/
  rewritable : ∀ (cs : List Char) (c' : Cursor), FitsBetween mark cs →
    c'.rest = before ++ mark :: (cs ++ mark :: after) →
      ∃ r name' value', s c' = .ok r ∧ r.value = .attribute name' value' ∧ name.Alike name' ∧ value'.chars = cs ∧
        r.next.rest = after

/-- An attribute is a name and an equals sign, and then a value between quotation marks. -/
private theorem attributeSpec_eq_ok {r : Scanned c Token} (h : attributeSpec c = .ok r)
    (ht : r.value = .attribute name value) :
    ∃ (named : Scanned c QName) (equal : Scanned named.next Unit) (mark : Char),
      Lexeme.qname c = .ok named ∧ named.value = name ∧ Lexeme.equals named.next = .ok equal ∧
      (mark = '"' ∨ mark = '\'') ∧ equal.next.rest = mark :: (value.chars ++ mark :: r.next.rest) ∧
      value.offset = equal.next.position.offset + utf8Size [mark] ∧ FitsBetween mark value.chars := by
  obtain ⟨named, hname, r₁, h₁, hvalue₁, hnext₁⟩ := Scan.bind_eq_ok h
  obtain ⟨equal, hequals, r₂, h₂, hvalue₂, hnext₂⟩ := Scan.bind_eq_ok h₁
  obtain ⟨quoted, hquote, r₃, h₃, hvalue₃, hnext₃⟩ := Scan.bind_eq_ok h₂
  obtain ⟨valued, hvalue, r₄, h₄, hvalue₄, hnext₄⟩ := Scan.bind_eq_ok h₃
  obtain ⟨closed, hclose, r₅, h₅, hvalue₅, hnext₅⟩ := Scan.bind_eq_ok h₄
  obtain rfl := Except.ok.inj h₅
  have htoken : r.value = .attribute named.value valued.value := by rw [hvalue₁, hvalue₂, hvalue₃, hvalue₄, hvalue₅]
  have hend : r.next = closed.next := by rw [hnext₁, hnext₂, hnext₃, hnext₄, hnext₅]
  obtain ⟨rfl, rfl⟩ := Token.attribute.inj (ht.symm.trans htoken)
  obtain ⟨hmark, hopen⟩ := Lexeme.rest_of_quote hquote
  obtain ⟨hrun, hoffset, hfits⟩ := Lexeme.fits_of_valueUntil hvalue
  have hclosed := Lexeme.rest_of_char hclose
  refine ⟨named, equal, quoted.value, hname, rfl, hequals, hmark, by rw [hopen, hrun, hclosed, hend], ?_, hfits⟩
  obtain ⟨used, hused, hposition⟩ := quoted.reaches.split
  have hmarked : used = [quoted.value] := List.append_cancel_right (hused.symm.trans hopen)
  rw [hoffset, hposition, hmarked, Position.offset_after]

private theorem exists_attributeSpec {named : Scanned c QName} {equal : Scanned named.next Unit} {cs : List Char}
    (hname : Lexeme.qname c = .ok named) (hequals : Lexeme.equals named.next = .ok equal)
    (hmark : mark = '"' ∨ mark = '\'') (hcs : FitsBetween mark cs)
    (hrest : equal.next.rest = mark :: (cs ++ mark :: after)) :
    ∃ r value, attributeSpec c = .ok r ∧ r.value = .attribute named.value value ∧ value.chars = cs ∧
      r.next.rest = after := by
  obtain ⟨quoted, hquote, hquoted, hopen⟩ := Lexeme.exists_quote hmark hrest
  obtain ⟨valued, hvalue, hchars, hrun⟩ := Lexeme.exists_valueUntil hcs hopen
  obtain ⟨closed, hclose, hend⟩ := Lexeme.exists_char hrun
  unfold Lexeme.valueUntil at hvalue
  simp only [attributeSpec, Bind.bind, hname, hequals, hquote, hquoted, hvalue, hclose, pure]
  exact ⟨_, valued.value, rfl, rfl, hchars, hend⟩

private theorem givesAttribute_attributeSpec {r : Scanned c Token} (h : attributeSpec c = .ok r)
    (ht : r.value = .attribute name value) :
    ∃ before mark, GivesAttribute attributeSpec c name value before mark r.next.rest := by
  obtain ⟨named, equal, mark, hname, rfl, hequals, hmark, hquoted, hoffset, hfits⟩ := attributeSpec_eq_ok h ht
  obtain ⟨gap, hgap, -⟩ := equal.reaches.split
  obtain ⟨before, hbefore, hposition⟩ := (named.reaches.trans equal.reaches).split
  refine ⟨before, mark, hmark, by rw [hbefore, hquoted], ?_, hfits, ?_⟩
  · rw [hoffset, hposition, Position.offset_after, utf8Size_append, Nat.add_assoc]
  · intro cs c' hcs hc'
    have hstart := SameStart.quote hmark (value.chars ++ mark :: r.next.rest) (cs ++ mark :: r.next.rest)
    -- The name and the equals sign are in front of the mark, where the texts are still the same.
    obtain ⟨named', hname', halike, hgap'⟩ := Lexeme.matches_qname hstart c c' before gap named
      (by rw [hbefore, hquoted]) hc' hname (by rw [hgap, hquoted])
    obtain ⟨equal', hequals', -, hquoted'⟩ := Lexeme.same_equals hstart named.next named'.next gap [] equal
      (by rw [hgap, hquoted]) hgap' hequals hquoted
    obtain ⟨r', value', hr', htoken', hchars', hend'⟩ := exists_attributeSpec hname' hequals' hmark hcs hquoted'
    exact ⟨r', named'.value, value', hr', htoken', halike, hchars', hend'⟩

/-- A tag that ends gives no attribute. -/
private theorem ne_attr_of_end {s : Lexeme Token} (hs : Scan.Gives (fun t => t = .openEnd ∨ t = .emptyEnd) s)
    {r : Scanned c Token} (h : s c = .ok r) : r.value ≠ .attribute name value := by
  rcases hs c r h with hr | hr <;> simp [hr]

private theorem tagPart_eq_attributeSpec {gap cs : List Char} {r : Scanned c Token} (h : tagPart gap cs c = .ok r)
    (ht : r.value = .attribute name value) : tagPart gap cs = attributeSpec := by
  revert h
  unfold tagPart
  split <;> intro h
  · by_cases hgap : gap = []
    · rw [if_pos hgap] at h
      simp [Scan.fail] at h
    · exact if_neg hgap
  · exact absurd ht (ne_attr_of_end (.bind fun _ => .bind fun _ => .pure (.inr rfl)) h)
  · exact absurd ht (ne_attr_of_end (.bind fun _ => .pure (.inl rfl)) h)
  · by_cases hgap : gap = []
    · rw [if_pos hgap] at h
      obtain ⟨r₁, -, r₂, h₂, -⟩ := Scan.bind_eq_ok h
      simp [Scan.fail] at h₂
    · exact if_neg hgap

theorem givesAttribute_inTag {r : Scanned c Token} (h : inTag c = .ok r) (ht : r.value = .attribute name value) :
    ∃ before mark, GivesAttribute inTag c name value before mark r.next.rest := by
  rw [inTag_eq] at h ⊢
  obtain ⟨spaced, hspaces, r₁, h₁, hvalue₁, hnext₁⟩ := Scan.bind_eq_ok h
  obtain ⟨seen, hseen, r₂, h₂, hvalue₂, hnext₂⟩ := Scan.bind_eq_ok h₁
  obtain rfl := Except.ok.inj hseen
  rw [hvalue₁, hvalue₂] at ht
  have hspec := tagPart_eq_attributeSpec h₂ ht
  rw [hspec] at h₂
  obtain ⟨before, mark, hgives⟩ := givesAttribute_attributeSpec h₂ ht
  obtain ⟨gap, hgap, hposition⟩ := spaced.reaches.split
  have hend : r₂.next.rest = r.next.rest := by rw [hnext₁, hnext₂]
  rw [hend] at hgives
  refine ⟨gap ++ before, mark, hgives.mark_eq, ?_, ?_, hgives.fits, ?_⟩
  · rw [hgap, hgives.rest_eq, List.append_assoc]
  · rw [hgives.offset_eq, hposition, Position.offset_after, List.append_assoc, utf8Size_append gap, Nat.add_assoc]
  · intro cs c' hcs hc'
    have hstart := SameStart.quote hgives.mark_eq (value.chars ++ mark :: r.next.rest) (cs ++ mark :: r.next.rest)
    obtain ⟨spaced', hspaces', hsame, hrest'⟩ := Lexeme.same_takeWhile hstart isSpace c c' (gap ++ before) before spaced
      (by rw [hgap, hgives.rest_eq, List.append_assoc]) hc' hspaces hgives.rest_eq
    obtain ⟨r', name', value', hr', hr⟩ := hgives.rewritable cs spaced'.next hcs hrest'
    have hspec' : tagPart spaced'.value spaced'.next.rest = attributeSpec := by
      -- Behind the white space both texts start with the same character, if only with the mark.
      rw [← hsame, ← hspec, hrest', hgives.rest_eq]
      cases before <;> exact tagPart_cons _ _ _ _
    rw [← hspec'] at hr'
    have hahead : (Scan.ahead : Lexeme _) spaced'.next = .ok ⟨spaced'.next.rest, spaced'.next, .refl _⟩ := rfl
    exact ⟨_, name', value', Scan.bind_of_ok hspaces' (Scan.bind_of_ok hahead hr'), hr⟩

end Production

namespace Lexer

variable {name : QName} {value : Passage} {l l' : Lexer} {depth : Nat}

private theorem exists_of_next?_attr (h : l.next? = .ok (some (.attribute name value, l'))) :
    ∃ depth r, l.phase = .inTag depth ∧ Production.inTag l.cursor = .ok r ∧ r.value = .attribute name value ∧
      l' = ⟨.inTag depth, r.next⟩ := by
  obtain ⟨depth, hphase, -⟩ := (goes_of_next? h).exists_of_attr
  simp only [next?, hphase, inTag] at h
  split at h
  · simp at h
  · obtain ⟨r, hr, ht, rfl⟩ := construct_eq_ok h
    have htoken : r.value = .attribute name value := ht.symm
    exact ⟨depth, r, hphase, hr, htoken, by rw [htoken]; rfl⟩

private theorem next?_of_attr (hphase : l.phase = .inTag depth) {r : Scanned l.cursor Token}
    (hr : Production.inTag l.cursor = .ok r) (ht : r.value = .attribute name value) :
    l.next? = .ok (some (.attribute name value, ⟨.inTag depth, r.next⟩)) := by
  have hrest : l.cursor.rest ≠ [] := by
    intro hnil
    have := Production.advances_inTag l.cursor r hr
    simp [hnil] at this
  simp only [next?, hphase, inTag, hrest, construct, hr, ht, ↓reduceIte]
  rfl

end Lexer

/-! ### Documents with another value -/

namespace Reader

open Production (GivesAttribute)

variable {B : String → String → Prop} {name : QName} {value : Passage}

theorem Alike.start {U V : List Char} (hstart : SameStart U V) (before : List Char) (systemId : Option String) :
    (Reader.start (before ++ U) systemId).Alike B U V (Reader.start (before ++ V) systemId) := by
  have hhead := hstart.blind_head? before
  have hskip : ∃ a, (before ++ U).drop (if (before ++ U).head? = some '\uFEFF' then 1 else 0) = a ++ U ∧
      (before ++ V).drop (if (before ++ U).head? = some '\uFEFF' then 1 else 0) = a ++ V := by
    split
    · rename_i hmark
      -- A byte order mark is no quotation mark, so it is in front of them.
      cases hstart with
      | nil => exact ⟨_, (List.append_nil _).symm, (List.append_nil _).symm⟩
      | quote hquote cs ds =>
        rcases before with _ | ⟨d, before⟩
        · obtain rfl := Option.some.inj hmark
          simp at hquote
        · exact ⟨before, rfl, rfl⟩
    · exact ⟨before, rfl, rfl⟩
  refine ⟨rfl, ?_, .nil, rfl, rfl⟩
  unfold Reader.start Lexer.start
  rw [← hhead]
  exact hskip

/-- The call that reads an attribute, where the values differ. -/
private theorem Alike.advance_of_attr {r r' : Reader} {before after cs : List Char} {mark : Char} {lexer : Lexer}
    {opened : OpenElements} {entities : Entities} {events : List Event}
    (h : r.Alike B (mark :: (value.chars ++ mark :: after)) (mark :: (cs ++ mark :: after)) r')
    (hs : r.stage ≠ .finished) (hl : r.lexer.next? = .ok (some (.attribute name value, lexer)))
    (ht : takeToken { r with lexer } (.attribute name value) = .ok (opened, entities, events))
    (hgives : GivesAttribute Production.inTag r.lexer.cursor name value before mark after)
    (hafter : lexer.cursor.rest = after) (hcs : Lexeme.FitsBetween mark cs)
    (hvalue : ∀ (entities : Entities) text, entities.Expands value.chars text → entities.Expands cs text)
    (hdeclared : name.isDeclaration → B (.ofList value.chars) (.ofList cs)) :
    r'.advance.2.2 = .token ∧ List.Forall₂ (Event.Alike B) r.advance.2.1 r'.advance.2.1 ∧
      r.advance.1.Alike B [] [] r'.advance.1 := by
  obtain ⟨depth, scanned, hphase, -, -, rfl⟩ := Lexer.exists_of_next?_attr hl
  obtain ⟨before', hrest, hrest'⟩ := h.cursor
  obtain rfl : before' = before := List.append_cancel_right (hrest.symm.trans hgives.rest_eq)
  obtain ⟨scanned', name', value', hscanned', htoken', hname, hchars, hafter'⟩ := hgives.rewritable cs _ hcs hrest'
  have hl' := Lexer.next?_of_attr (h.phase.trans hphase) hscanned' htoken'
  have hraw : RawAttribute.Alike ⟨name, value⟩ ⟨name', value'⟩ := by
    refine ⟨hname, ?_⟩
    rw [hchars]
    exact hvalue
  have hbefore : ({ r with lexer := ⟨.inTag depth, scanned.next⟩ } : Reader).opened.Alike B
      ({ r' with lexer := ⟨.inTag depth, scanned'.next⟩ } : Reader).opened := h.opened
  obtain ⟨opened', events', ht', hopened, hevents⟩ :=
    exists_takeToken_of_attr hbefore h.entities hname hraw (hchars ▸ hdeclared) ht
  refine alike_of_token hs h.stage hl hl' ht ht' hopened hevents rfl ⟨after, ?_, ?_⟩
  · rw [hafter, List.append_nil]
  · rw [hafter', List.append_nil]

theorem exists_stopsAt_finished {source : List Char} {systemId : Option String}
    (h : (Reader.start source systemId).error? = none) : ∃ i, (Reader.start source systemId).StopsAt i .finished := by
  obtain ⟨i, -, outcome, ho, hstops⟩ := exists_stopsAt source systemId
  rw [error?_eq hstops ho] at h
  cases outcome with
  | token => exact absurd rfl ho
  | failed e => simp [Outcome.error?] at h
  | finished => exact ⟨i, hstops⟩

/-- The value of an attribute stands in the document where its offset says, between two quotation marks. -/
private theorem exists_givesAttribute {source : List Char} {systemId : Option String} {k : Nat} :
    let r := Reader.start source systemId
    let after := (r.afterCalls (k + 1)).lexer.cursor.rest
    r.tokenOfCall k = some (.attribute name value) →
      ∃ past before mark, GivesAttribute Production.inTag (r.afterCalls k).lexer.cursor name value before mark after ∧
        source = past ++ before ++ mark :: (value.chars ++ mark :: after) ∧
        value.offset = utf8Size (past ++ before ++ [mark]) := by
  intro r after htoken
  have hcall := call_of_tokenOfCall htoken
  obtain ⟨t, lexer, opened, entities, events, htoken', hl, -, -, hnext⟩ := exists_of_call_token hcall
  obtain rfl := Option.some.inj (htoken.symm.trans htoken')
  obtain ⟨depth, scanned, -, hscanned, hgiven, rfl⟩ := Lexer.exists_of_next?_attr hl
  obtain ⟨before, mark, hgives⟩ := Production.givesAttribute_inTag hscanned hgiven
  have hafter : scanned.next.rest = after := (congrArg (·.lexer.cursor.rest) hnext).symm
  rw [hafter] at hgives
  obtain ⟨past, hpast, hposition⟩ := (reaches_afterCalls source systemId k).1.split
  refine ⟨past, before, mark, hgives, ?_, ?_⟩
  · rw [List.append_assoc, ← hgives.rest_eq, ← hpast]
    rfl
  · rw [hgives.offset_eq, hposition, Position.offset_after, List.append_assoc, utf8Size_append past]
    simp [Cursor.start, Position.start]

/-- Behind `past` the documents have different values. -/
private theorem forall₂_events_of_gives {source source' past before cs after : List Char} {systemId : Option String}
    {mark : Char} {k : Nat} (hsource : source = past ++ mark :: (value.chars ++ mark :: after))
    (hsource' : source' = past ++ mark :: (cs ++ mark :: after)) (hB : ∀ u, B u u) (hcs : Lexeme.FitsBetween mark cs)
    (hvalue : ∀ (entities : Entities) text, entities.Expands value.chars text → entities.Expands cs text)
    (hdeclared : name.isDeclaration → B (.ofList value.chars) (.ofList cs)) :
    let r := Reader.start source systemId
    let r' := Reader.start source' systemId
    r.error? = none → r.tokenOfCall k = some (.attribute name value) →
      GivesAttribute Production.inTag (r.afterCalls k).lexer.cursor name value before mark after →
      (r.afterCalls (k + 1)).lexer.cursor.rest = after →
      r'.error? = none ∧ List.Forall₂ (Event.Alike B) r.events r'.events := by
  intro r r' hread htoken hgives hafter
  subst hsource hsource'
  obtain ⟨i, hstops⟩ := exists_stopsAt_finished hread
  have hcall := call_of_tokenOfCall htoken
  have hki : k < i := hstops.lt_of_token (by simp) hcall
  obtain ⟨t, lexer, opened, entities, events, htoken', hl, ht, -, hnext⟩ := exists_of_call_token hcall
  obtain rfl := Option.some.inj (htoken.symm.trans htoken')
  have hlexer : lexer.cursor.rest = after := (congrArg (·.lexer.cursor.rest) hnext).symm.trans hafter
  -- Up to the attribute, at the attribute, and behind it.
  have hstart := SameStart.quote hgives.mark_eq (value.chars ++ mark :: after) (cs ++ mark :: after)
  obtain ⟨hfollows, halike⟩ := Follows.to (Nat.zero_le k) .zero (Alike.start hstart past systemId) hB hstart
    (fun j hj => hstops.before j (Nat.lt_trans hj hki)) hgives.rest_eq
  obtain ⟨htoken', hevents, halike⟩ :=
    halike.advance_of_attr (stage_ne_of_token hcall) hl ht hgives hlexer hcs hvalue hdeclared
  obtain ⟨hfollows, halike⟩ := (hfollows.succ htoken' hevents).to hki halike hB .nil hstops.before
    (List.append_nil _).symm
  exact hfollows.events_of_finished halike hstops

private theorem forall₂_events_of_attr {systemId : Option String} {before old new after : List Char} {k : Nat}
    (hB : ∀ u, B u u)
    (hfits : ∀ mark, mark = '"' ∨ mark = '\'' → Lexeme.FitsBetween mark old → Lexeme.FitsBetween mark new)
    (hvalue : ∀ (entities : Entities) text, entities.Expands old text → entities.Expands new text)
    (hdeclared : name.isDeclaration → B (.ofList old) (.ofList new)) :
    let r := Reader.start (before ++ old ++ after) systemId
    let r' := Reader.start (before ++ new ++ after) systemId
    r.error? = none → r.tokenOfCall k = some (.attribute name value) → value.offset = utf8Size before →
      value.chars = old → r'.error? = none ∧ List.Forall₂ (Event.Alike B) r.events r'.events := by
  intro r r' hread htoken hoffset hchars
  subst hchars
  obtain ⟨past, inner, mark, hgives, hsource, hplace⟩ := exists_givesAttribute htoken
  generalize hrest : (r.afterCalls (k + 1)).lexer.cursor.rest = rest at hgives hsource
  -- The document is cut in two ways behind the same number of bytes.
  have hsplit : before ++ (value.chars ++ after) = (past ++ inner ++ [mark]) ++ (value.chars ++ mark :: rest) := by
    rw [← List.append_assoc, hsource, List.append_assoc _ [mark], List.singleton_append]
  obtain ⟨rfl, htail⟩ := append_inj_of_utf8Size hsplit (hoffset.symm.trans hplace)
  obtain rfl := List.append_cancel_left htail
  refine forall₂_events_of_gives hsource ?_ hB (hfits mark hgives.mark_eq hgives.fits) hvalue hdeclared hread
    htoken hgives hrest
  simp

end Reader

/-! ### References in values -/

private theorem toNat_of_isReferenceChar {d : Char} (hd : isReferenceChar d ∨ d = '&' ∨ d = ';') :
    35 ≤ d.toNat ∧ d.toNat ≤ 122 ∧ d.toNat ≠ 39 ∧ d.toNat ≠ 60 := by
  rcases hd with hd | rfl | rfl
  · simp only [isReferenceChar, Char.isDigit, Bool.or_eq_true, Bool.and_eq_true, decide_eq_true_eq, ge_iff_le,
      Char.le_def, UInt32.le_iff_toNat_le, Char.reduceVal, UInt32.reduceToNat, Char.toNat_val] at hd
    rcases hd with ((hdigit | hlower) | hupper) | hother
    · omega
    · omega
    · omega
    · simp only [List.contains_cons, List.contains_nil, Bool.or_false, Bool.or_eq_true, beq_iff_eq] at hother
      rcases hother with rfl | rfl | rfl <;> decide
  · decide
  · decide

private theorem fits_of_isReferenceChar {mark d : Char} (hmark : mark = '"' ∨ mark = '\'')
    (hd : isReferenceChar d ∨ d = '&' ∨ d = ';') : isXmlChar d ∧ d ≠ mark ∧ d ≠ '<' := by
  obtain ⟨hlow, hhigh, happostrophe, hless⟩ := toNat_of_isReferenceChar hd
  have hne : ∀ e : Char, d.toNat ≠ e.toNat → d ≠ e := fun e h heq => h (heq ▸ rfl)
  have hquotation : '"'.toNat = 34 := rfl
  refine ⟨?_, ?_, hne '<' hless⟩
  · rw [isXmlChar, if_neg (by omega), Bool.and_eq_true, decide_eq_true_eq, decide_eq_true_eq]
    omega
  · rcases hmark with rfl | rfl
    · exact hne '"' (by omega)
    · exact hne '\'' happostrophe

private theorem fitsBetween_of_referent {mark c : Char} {left right written : List Char}
    (hmark : mark = '"' ∨ mark = '\'')
    (hwritten : referent written = .character c) (h : Lexeme.FitsBetween mark (left ++ c :: right)) :
    Lexeme.FitsBetween mark (left ++ '&' :: (written ++ ';' :: right)) := by
  have hreference := isReferenceChar_of_referent hwritten
  intro d hd
  simp only [List.mem_append, List.mem_cons] at hd
  rcases hd with hleft | rfl | hd | rfl | hright
  · exact h d (by simp [hleft])
  · exact fits_of_isReferenceChar hmark (.inr (.inl rfl))
  · exact fits_of_isReferenceChar hmark (.inl (hreference d hd))
  · exact fits_of_isReferenceChar hmark (.inr (.inr rfl))
  · exact h d (by simp [hright])

namespace Reader

/-- A literal character in the value of an attribute is written as a reference to it, and the document is read without
an error as before. The references in a declaration are not expanded, though: then the events are the same up to their
places and up to the declared namespace, which some of them may name as it is written now. They are the same up to
their places if the attribute is an ordinary one, or if no event has named the namespace. -/
theorem events_respelled {systemId : Option String} {before left right after written : List Char} {c : Char} {k : Nat}
    {name : QName} {value : Passage} (hliteral : IsLiteral left c right) (hwritten : referent written = .character c) :
    let old := left ++ c :: right
    let new := left ++ '&' :: (written ++ ';' :: right)
    let r := Reader.start (before ++ old ++ after) systemId
    let r' := Reader.start (before ++ new ++ after) systemId
    r.error? = none → r.tokenOfCall k = some (.attribute name value) → value.offset = utf8Size before →
      value.chars = old →
      r'.error? = none ∧
        List.Forall₂ (Event.Alike fun u u' => u' = u ∨ u = .ofList old ∧ u' = .ofList new) r.events r'.events ∧
        ((name.isDeclaration → ∀ e ∈ r.events, .ofList old ∉ e.namespaces) →
          r'.events.map Event.unplaced = r.events.map Event.unplaced) := by
  intro old new r r' hread htoken hoffset hchars
  have hfits : ∀ mark, mark = '"' ∨ mark = '\'' → Lexeme.FitsBetween mark old → Lexeme.FitsBetween mark new :=
    fun _ hmark h => fitsBetween_of_referent hmark hwritten h
  have hvalue : ∀ (entities : Entities) text, entities.Expands old text → entities.Expands new text :=
    fun _ _ h => h.respelled hliteral hwritten
  obtain ⟨hread', hrenamed⟩ := forall₂_events_of_attr (B := fun u u' => u' = u ∨ u = .ofList old ∧ u' = .ofList new)
    (fun u => .inl rfl) hfits hvalue (fun _ => .inr ⟨rfl, rfl⟩) hread htoken hoffset hchars
  refine ⟨hread', hrenamed, fun hunnamed => ?_⟩
  by_cases hdeclaration : name.isDeclaration = true
  · refine map_unplaced_eq hrenamed fun e he u hu u' huu' => huu'.resolve_right ?_
    rintro ⟨rfl, -⟩
    exact hunnamed hdeclaration e he hu
  · have hsame := (forall₂_events_of_attr (B := fun u u' => u' = u) (fun _ => rfl) hfits hvalue
      (fun h => absurd h hdeclaration) hread htoken hoffset hchars).2
    exact map_unplaced_eq hsame fun _ _ _ _ _ h => h

/-- The value of `b` in `<a b="l"/>`. -/
theorem events_respelled_ordinary :
    let r := Reader.start ("<a b=\"".toList ++ ['l'] ++ "\"/>".toList) none
    let r' := Reader.start ("<a b=\"".toList ++ '&' :: ("#108".toList ++ [';']) ++ "\"/>".toList) none
    r.error? = none ∧ r.tokenOfCall 1 = some (.attribute ⟨⟨3, []⟩, ⟨3, ['b']⟩⟩ ⟨6, ['l']⟩) ∧
      r'.error? = none ∧ r'.events.map Event.unplaced = r.events.map Event.unplaced := by
  intro r r'
  have hread : r.error? = none := by decide +kernel
  have htoken : r.tokenOfCall 1 = some (.attribute ⟨⟨3, []⟩, ⟨3, ['b']⟩⟩ ⟨6, ['l']⟩) := by decide +kernel
  have hliteral : IsLiteral [] 'l' [] := ⟨by decide, by decide, .inl (.plain (by simp))⟩
  have hwritten : referent "#108".toList = .character 'l' := by decide +kernel
  have hoffset : 6 = utf8Size "<a b=\"".toList := by decide +kernel
  obtain ⟨hread', -, hsame⟩ := events_respelled hliteral hwritten hread htoken hoffset rfl
  exact ⟨hread, htoken, hread', hsame fun hdeclaration => absurd hdeclaration (by decide +kernel)⟩

/-- The value of `xmlns` in `<a xmlns="l"/>`: the namespace of the element is not the same any more. -/
theorem events_ne_of_respelledDeclaration :
    let r := Reader.start ("<a xmlns=\"".toList ++ ['l'] ++ "\"/>".toList) none
    let r' := Reader.start ("<a xmlns=\"".toList ++ '&' :: ("#108".toList ++ [';']) ++ "\"/>".toList) none
    referent "#108".toList = .character 'l' ∧ r.error? = none ∧
      r.tokenOfCall 1 = some (.attribute ⟨⟨3, []⟩, ⟨3, "xmlns".toList⟩⟩ ⟨10, ['l']⟩) ∧
      r'.error? = none ∧ r'.events.map Event.unplaced ≠ r.events.map Event.unplaced := by
  decide +kernel

end Reader

end MapMarkup.Xml
