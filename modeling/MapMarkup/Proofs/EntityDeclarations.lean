import MapMarkup.Proofs.Normalization
import MapMarkup.Proofs.Respelling
import MapMarkup.Proofs.RootElement

/-!
# What the declarations of a DTD declare

An entity declaration in the DTD declares a general entity or, with a percent sign in front of the name, a parameter
entity. The token is the same for both; whether the sign is there can only be seen in the text
(`EntityDeclaration.WrittenAs`, `Reader.writtenAs_of_declarationOfCall`). The table of a reader holds the predefined
entities and behind them all that have been declared, of either kind, in the order of the document
(`Reader.entities_afterCalls`). So a name has the replacement text of its first declaration, if it is not predefined
(`Reader.get?_afterCalls`). There are no declarations behind the prolog (`Reader.declarationsOfCalls_eq`).
-/

namespace MapMarkup.Xml

theorem exists_of_mem_forall₂ {α β : Type} {R : α → β → Prop} {xs : List α} {ys : List β} (h : List.Forall₂ R xs ys)
    {x : α} (hx : x ∈ xs) : ∃ y ∈ ys, R x y := by
  induction h with
  | nil => simp at hx
  | @cons first y _ ys hfirst _ ih =>
    rcases List.mem_cons.1 hx with rfl | hx
    · exact ⟨y, by simp, hfirst⟩
    · obtain ⟨z, hz, hR⟩ := ih hx
      exact ⟨z, List.mem_cons_of_mem y hz, hR⟩

/-! ### The parts of a declaration -/

/-- White space, at least one character. -/
def IsGap (cs : List Char) : Prop :=
  cs ≠ [] ∧ ∀ c ∈ cs, isSpace c

def IsName (cs : List Char) : Prop :=
  Lexeme.startsName cs ∧ ∀ c ∈ cs, isNameChar c

namespace Lexeme

variable {c : Cursor}

/-- A scan that looks at the text ahead first. -/
private theorem exists_of_ahead {α : Type} {f : List Char → Lexeme α} {r : Scanned c α}
    (h : (do f (← Scan.ahead) : Lexeme α) c = .ok r) :
    ∃ r', f c.rest c = .ok r' ∧ r.value = r'.value ∧ r.next = r'.next := by
  obtain ⟨r₁, h₁, r₂, h₂, hvalue, hnext⟩ := Scan.bind_eq_ok h
  obtain rfl := Except.ok.inj h₁
  exact ⟨r₂, h₂, hvalue, hnext⟩

private theorem rest_of_takeWhile {p : Char → Bool} {r : Scanned c (List Char)}
    (h : (Scan.takeWhile p : Lexeme _) c = .ok r) :
    r.value = c.rest.takeWhile p ∧ r.next.rest = c.rest.dropWhile p ∧ c.rest = r.value ++ r.next.rest := by
  obtain ⟨r₁, h₁, r₂, h₂, hvalue, hnext⟩ := Scan.bind_eq_ok h
  obtain rfl := Except.ok.inj h₁
  obtain rfl := Except.ok.inj h₂
  have htake : r.value = c.rest.takeWhile p := by
    rw [hvalue]
    exact (List.prefix_iff_eq_take.1 (List.takeWhile_prefix p)).symm
  have hdrop : r.next.rest = c.rest.dropWhile p := by
    rw [hnext]
    exact drop_length_takeWhile p c.rest
  exact ⟨htake, hdrop, by rw [htake, hdrop, List.takeWhile_append_dropWhile]⟩

private theorem rest_of_passage {s : Lexeme (List Char)} {r : Scanned c Passage} (h : passage s c = .ok r) :
    ∃ r', s c = .ok r' ∧ r.value.chars = r'.value ∧ r.next = r'.next := by
  obtain ⟨r₁, h₁, r₂, h₂, hvalue, hnext⟩ := Scan.bind_eq_ok h
  obtain rfl := Except.ok.inj h₁
  obtain ⟨r₃, h₃, r₄, h₄, hvalue', hnext'⟩ := Scan.bind_eq_ok h₂
  obtain rfl := Except.ok.inj h₄
  exact ⟨r₃, h₃, by rw [hvalue, hvalue'], by rw [hnext, hnext']⟩

theorem rest_of_text {s : String} {r : Scanned c Unit} (h : text s c = .ok r) : c.rest = s.toList ++ r.next.rest := by
  obtain ⟨r₁, h₁, r₂, h₂, -, hnext⟩ := Scan.bind_eq_ok h
  obtain rfl := Except.ok.inj h₁
  dsimp only at h₂
  split at h₂
  · rename_i hsees
    obtain ⟨r₃, h₃, r₄, h₄, -, hnext'⟩ := Scan.bind_eq_ok h₂
    obtain rfl := Except.ok.inj h₃
    obtain rfl := Except.ok.inj h₄
    obtain ⟨rest, hrest⟩ := List.isPrefixOf_iff_prefix.1 hsees
    rw [hnext, hnext']
    show c.rest = s.toList ++ c.rest.drop s.toList.length
    rw [← hrest, List.drop_left]
  · obtain ⟨r₃, -, r₄, h₄, -⟩ := Scan.bind_eq_ok h₂
    simp [Scan.fail] at h₄

theorem rest_of_spaces {r : Scanned c Unit} (h : spaces c = .ok r) :
    r.next.rest = c.rest.dropWhile isSpace ∧ ∃ gap, (∀ d ∈ gap, isSpace d) ∧ c.rest = gap ++ r.next.rest := by
  obtain ⟨r₁, h₁, r₂, h₂, -, hnext⟩ := Scan.bind_eq_ok h
  obtain rfl := Except.ok.inj h₂
  obtain ⟨hvalue, hdrop, hrest⟩ := rest_of_takeWhile h₁
  rw [hnext]
  exact ⟨hdrop, r₁.value, fun d hd => List.mem_takeWhile_imp (hvalue ▸ hd), hrest⟩

private theorem rest_of_someSpace {r : Scanned c Unit} (h : someSpace c = .ok r) :
    r.next.rest = c.rest.dropWhile isSpace ∧ ∃ gap, IsGap gap ∧ c.rest = gap ++ r.next.rest := by
  obtain ⟨r₁, h₁, -, hnext⟩ := exists_of_ahead h
  rcases hc : c.rest with _ | ⟨d, ds⟩
  · simp [hc, Scan.fail] at h₁
  · rw [hc] at h₁
    by_cases hspace : isSpace d = true
    · simp only [hspace, ↓reduceIte] at h₁
      obtain ⟨hdrop, gap, hgap, hrest⟩ := rest_of_spaces h₁
      rw [hc] at hdrop hrest
      rw [hnext]
      refine ⟨hdrop, gap, ⟨?_, hgap⟩, hrest⟩
      rintro rfl
      rw [List.nil_append, hdrop, List.dropWhile_cons_of_pos hspace] at hrest
      have hlength := (List.dropWhile_suffix isSpace : _ <:+ ds).length_le
      rw [← hrest, List.length_cons] at hlength
      omega
    · simp only [hspace, Bool.false_eq_true, ↓reduceIte] at h₁
      obtain ⟨r₂, -, r₃, h₃, -⟩ := Scan.bind_eq_ok h₁
      simp [Scan.fail] at h₃

private theorem rest_of_name {r : Scanned c Passage} (h : name c = .ok r) :
    IsName r.value.chars ∧ c.rest = r.value.chars ++ r.next.rest := by
  obtain ⟨r₁, h₁, hvalue, hnext⟩ := exists_of_ahead h
  rcases hc : c.rest with _ | ⟨d, ds⟩
  · simp [hc, Scan.fail] at h₁
  · rw [hc] at h₁
    by_cases hstart : isNameStart d = true
    · simp only [hstart, ↓reduceIte] at h₁
      obtain ⟨r₂, h₂, hchars, hnext'⟩ := rest_of_passage h₁
      obtain ⟨hrun, -, hrest⟩ := rest_of_takeWhile h₂
      have hd : isNameChar d = true := by simp [isNameChar, hstart]
      rw [hvalue, hnext, hchars, hnext', ← hc]
      refine ⟨⟨?_, fun e he => List.mem_takeWhile_imp (hrun ▸ he)⟩, hrest⟩
      rw [hrun, hc, List.takeWhile_cons_of_pos hd]
      exact hstart
    · simp [hstart, Scan.fail] at h₁

private theorem rest_of_quotedText {r : Scanned c Passage} (h : quotedText c = .ok r) :
    ∃ mark, (mark = '"' ∨ mark = '\'') ∧ mark ∉ r.value.chars ∧
      c.rest = mark :: (r.value.chars ++ mark :: r.next.rest) := by
  obtain ⟨quoted, hquote, r₁, h₁, hvalue₁, hnext₁⟩ := Scan.bind_eq_ok h
  obtain ⟨valued, hpassage, r₂, h₂, hvalue₂, hnext₂⟩ := Scan.bind_eq_ok h₁
  obtain ⟨closed, hclose, r₃, h₃, hvalue₃, hnext₃⟩ := Scan.bind_eq_ok h₂
  obtain rfl := Except.ok.inj h₃
  obtain ⟨hmark, hopen⟩ := rest_of_quote hquote
  obtain ⟨run, hrun, hchars, hnext⟩ := rest_of_passage hpassage
  obtain ⟨hmark', -, hrest⟩ := rest_of_takeWhile hrun
  have hclosed := rest_of_char hclose
  have hvalue : r.value = valued.value := by rw [hvalue₁, hvalue₂, hvalue₃]
  have hend : r.next = closed.next := by rw [hnext₁, hnext₂, hnext₃]
  refine ⟨quoted.value, hmark, fun hmem => ?_, ?_⟩
  · rw [hvalue, hchars, hmark'] at hmem
    simpa using List.mem_takeWhile_imp hmem
  · rw [hopen, hrest, ← hnext, hclosed, hend, hvalue, hchars]

end Lexeme

/-! ### Declarations -/

/-- The declaration of an entity with a value. -/
structure EntityDeclaration where
  /-- Whether the name stands for the entity in the DTD only, and not in the content of elements. -/
  parameter : Bool
  name : List Char
  value : Passage
deriving DecidableEq, Repr

/-- The text writes the declaration. -/
inductive EntityDeclaration.WrittenAs (d : EntityDeclaration) : List Char → Prop
  | intro {gap sign gap' trail : List Char} {mark : Char} (hgap : IsGap gap)
    (hsign : if d.parameter then ∃ gap, IsGap gap ∧ sign = '%' :: gap else sign = []) (hname : IsName d.name)
    (hgap' : IsGap gap') (hmark : mark = '"' ∨ mark = '\'') (hvalue : mark ∉ d.value.chars)
    (htrail : ∀ c ∈ trail, isSpace c) :
    WrittenAs d ("<!ENTITY".toList ++ gap ++ sign ++ d.name ++ gap' ++ mark :: (d.value.chars ++ mark :: (trail ++ ['>'])))

namespace Production

variable {c : Cursor} {name value : Passage}

private theorem rest_of_entityValue {general : Bool} {r : Scanned c (Option Passage)}
    (h : entityValue general c = .ok r)
    (hvalue : r.value = some value) :
    ∃ mark, (mark = '"' ∨ mark = '\'') ∧ mark ∉ value.chars ∧ c.rest = mark :: (value.chars ++ mark :: r.next.rest) := by
  obtain ⟨r₁, h₁, hvalue₁, hnext₁⟩ := Lexeme.exists_of_ahead h
  rcases hc : c.rest with _ | ⟨d, ds⟩
  · simp [hc, Scan.fail] at h₁
  · rw [hc] at h₁
    dsimp only at h₁
    split at h₁
    · obtain ⟨quoted, hquoted, r₂, h₂, hvalue₂, hnext₂⟩ := Scan.bind_eq_ok h₁
      obtain rfl := Except.ok.inj h₂
      obtain rfl : quoted.value = value := by
        rw [hvalue₁, hvalue₂] at hvalue
        exact Option.some.inj hvalue
      rw [hnext₁, hnext₂, ← hc]
      exact Lexeme.rest_of_quotedText hquoted
    · -- An external entity has no value.
      exfalso
      rw [hvalue₁] at hvalue
      split at h₁
      · obtain ⟨found, -, r₂, h₂, hvalue₂, -⟩ := Scan.bind_eq_ok h₁
        rw [hvalue₂] at hvalue
        split at h₂
        · split at h₂
          · obtain ⟨r₃, -, r₄, h₄, hvalue₃, -⟩ := Scan.bind_eq_ok h₂
            obtain ⟨r₅, -, r₆, h₆, hvalue₄, -⟩ := Scan.bind_eq_ok h₄
            obtain rfl := Except.ok.inj h₆
            simp [hvalue₃, hvalue₄] at hvalue
          · obtain rfl := Except.ok.inj h₂
            simp at hvalue
        · simp [Scan.fail] at h₂
      · obtain ⟨r₂, -, r₃, h₃, -⟩ := Scan.bind_eq_ok h₁
        simp [Scan.fail] at h₃

/-- The part of a declaration behind the sign, which is written alike for both kinds. -/
def declared (general : Bool) : Lexeme Token := do
  let n ← Lexeme.name
  Lexeme.someSpace
  let value ← entityValue general
  Lexeme.spaces
  Lexeme.char '>'
  return .entity n value

theorem entityDeclaration_eq : entityDeclaration = (do
    Lexeme.text "<!ENTITY"
    Lexeme.someSpace
    let parameter ← Lexeme.sees "%"
    if parameter then
      Lexeme.char '%'
      Lexeme.someSpace
      declared !parameter
    else declared !parameter) := rfl

private theorem rest_of_declared {general : Bool} {r : Scanned c Token} (h : declared general c = .ok r)
    (ht : r.value = .entity name (some value)) :
    ∃ gap mark trail, IsName name.chars ∧ IsGap gap ∧ (mark = '"' ∨ mark = '\'') ∧ mark ∉ value.chars ∧
      (∀ d ∈ trail, isSpace d) ∧
      c.rest = name.chars ++ (gap ++ mark :: (value.chars ++ mark :: (trail ++ '>' :: r.next.rest))) := by
  obtain ⟨named, hname, r₁, h₁, hvalue₁, hnext₁⟩ := Scan.bind_eq_ok h
  obtain ⟨spaced, hspaced, r₂, h₂, hvalue₂, hnext₂⟩ := Scan.bind_eq_ok h₁
  obtain ⟨valued, hvalued, r₃, h₃, hvalue₃, hnext₃⟩ := Scan.bind_eq_ok h₂
  obtain ⟨trailed, htrailed, r₄, h₄, hvalue₄, hnext₄⟩ := Scan.bind_eq_ok h₃
  obtain ⟨closed, hclosed, r₅, h₅, hvalue₅, hnext₅⟩ := Scan.bind_eq_ok h₄
  obtain rfl := Except.ok.inj h₅
  have htoken : r.value = .entity named.value valued.value := by rw [hvalue₁, hvalue₂, hvalue₃, hvalue₄, hvalue₅]
  have hend : r.next = closed.next := by rw [hnext₁, hnext₂, hnext₃, hnext₄, hnext₅]
  obtain ⟨rfl, hvalue⟩ := Token.entity.inj (htoken.symm.trans ht)
  obtain ⟨hisName, hnamed⟩ := Lexeme.rest_of_name hname
  obtain ⟨-, gap, hgap, hbetween⟩ := Lexeme.rest_of_someSpace hspaced
  obtain ⟨mark, hmark, hnot, hquoted⟩ := rest_of_entityValue hvalued hvalue
  obtain ⟨-, trail, htrail, hbehind⟩ := Lexeme.rest_of_spaces htrailed
  have hlast := Lexeme.rest_of_char hclosed
  exact ⟨gap, mark, trail, hisName, hgap, hmark, hnot, htrail, by rw [hnamed, hbetween, hquoted, hbehind, hlast, hend]⟩

/-- Whether a percent sign stands behind the word and the white space with which a declaration starts. -/
def seesParameter (c : Cursor) : Bool :=
  ((c.rest.drop "<!ENTITY".toList.length).dropWhile isSpace).head? = some '%'

private theorem writtenAs_of_entityDeclaration {r : Scanned c Token} (h : entityDeclaration c = .ok r)
    (ht : r.value = .entity name (some value)) :
    ∃ written, c.rest = written ++ r.next.rest ∧
      EntityDeclaration.WrittenAs ⟨seesParameter c, name.chars, value⟩ written := by
  rw [entityDeclaration_eq] at h
  obtain ⟨worded, hworded, r₁, h₁, hvalue₁, hnext₁⟩ := Scan.bind_eq_ok h
  obtain ⟨spaced, hspaced, r₂, h₂, hvalue₂, hnext₂⟩ := Scan.bind_eq_ok h₁
  obtain ⟨seen, hseen, r₃, h₃, hvalue₃, hnext₃⟩ := Scan.bind_eq_ok h₂
  obtain rfl := Except.ok.inj hseen
  have hword := Lexeme.rest_of_text hworded
  obtain ⟨hdrop, gap, hgap, hspace⟩ := Lexeme.rest_of_someSpace hspaced
  have htoken : r₃.value = .entity name (some value) := by rw [← ht, hvalue₁, hvalue₂, hvalue₃]
  have hend : r.next = r₃.next := by rw [hnext₁, hnext₂, hnext₃]
  have hsees : "%".toList.isPrefixOf spaced.next.rest = seesParameter c := by
    unfold seesParameter
    rw [hword, List.drop_left, ← hdrop]
    rcases spaced.next.rest with _ | ⟨d, ds⟩
    · rfl
    · by_cases hd : d = '%' <;> simp [List.isPrefixOf, hd, Ne.symm]
  dsimp only at h₃
  rw [hsees] at h₃
  cases hparameter : seesParameter c with
  | true =>
    rw [if_pos hparameter] at h₃
    obtain ⟨signed, hsigned, r₄, h₄, hvalue₄, hnext₄⟩ := Scan.bind_eq_ok h₃
    obtain ⟨spaced', hspaced', r₅, h₅, hvalue₅, hnext₅⟩ := Scan.bind_eq_ok h₄
    have hsign := Lexeme.rest_of_char hsigned
    obtain ⟨-, gap₀, hgap₀, hspace₀⟩ := Lexeme.rest_of_someSpace hspaced'
    obtain ⟨gap', mark, trail, hname, hgap', hmark, hnot, htrail, hrest⟩ :=
      rest_of_declared h₅ (by rw [← htoken, hvalue₄, hvalue₅])
    refine ⟨_, ?_, .intro hgap ⟨gap₀, hgap₀, rfl⟩ hname hgap' hmark hnot htrail⟩
    rw [hword, hspace, hsign, hspace₀, hrest, hend, hnext₄, hnext₅]
    simp
  | false =>
    rw [if_neg (by simp [hparameter])] at h₃
    obtain ⟨gap', mark, trail, hname, hgap', hmark, hnot, htrail, hrest⟩ := rest_of_declared h₃ htoken
    have hsign : if false = true then ∃ gap, IsGap gap ∧ ([] : List Char) = '%' :: gap else ([] : List Char) = [] := rfl
    refine ⟨_, ?_, .intro hgap hsign hname hgap' hmark hnot htrail⟩
    rw [hword, hspace, hrest, hend]
    simp

end Production

namespace Lexer

variable {name : Passage} {value : Option Passage} {l l' : Lexer}

/-- A declaration is found behind white space and declarations that give no token. -/
private theorem exists_of_next?_entity (h : l.next? = .ok (some (.entity name value, l'))) :
    l.phase = .inDoctype ∧ ∃ c r, skipDeclarations l.cursor = .ok c ∧ Production.entityDeclaration c = .ok r ∧
      r.value = .entity name value ∧ l' = ⟨.inDoctype, r.next⟩ := by
  have hphase := (goes_of_next? h).eq_of_entity
  refine ⟨hphase, ?_⟩
  simp only [next?, hphase, inDoctype] at h
  split at h
  · simp at h
  · rename_i c hc
    unfold inDoctypeAt at h
    split at h
    · simp at h
    · split at h
      · obtain ⟨r, hr, hvalue, rfl⟩ := construct_eq_ok h
        exact ⟨c, r, hc, hr, hvalue.symm, rfl⟩
      · split at h
        · obtain ⟨r, hr, hvalue, -⟩ := construct_eq_ok h
          have haside : r.value = .aside := Production.gives_doctypeEnd c r hr
          simp [haside] at hvalue
        · split at h
          · rename_i lexed haside
            subst h
            exact absurd (eq_of_aside? haside).1 (by simp)
          · simp at h

/-- Whether the declaration ahead is that of a parameter entity. -/
def seesParameter (l : Lexer) : Bool :=
  match skipDeclarations l.cursor with
  | .ok c => Production.seesParameter c
  | .error _ => false

end Lexer

namespace Reader

/-- The declaration that a call reads. -/
def declarationOfCall (r : Reader) (k : Nat) : Option EntityDeclaration :=
  match r.tokenOfCall k with
  | some (.entity name (some value)) => some ⟨(r.afterCalls k).lexer.seesParameter, name.chars, value⟩
  | _ => none

/-- The declarations that the first `n` calls have read, in the order of the document. -/
def declarationsOfCalls (r : Reader) : Nat → List EntityDeclaration
  | 0 => []
  | n + 1 => r.declarationsOfCalls n ++ (r.declarationOfCall n).toList

/-- A declaration stands in the part of the document that its call goes through. -/
theorem writtenAs_of_declarationOfCall {r : Reader} {k : Nat} {d : EntityDeclaration}
    (h : r.declarationOfCall k = some d) :
    ∃ skipped written, (r.afterCalls k).lexer.cursor.rest =
      skipped ++ written ++ (r.afterCalls (k + 1)).lexer.cursor.rest ∧ d.WrittenAs written := by
  unfold declarationOfCall at h
  split at h
  · rename_i name value htoken
    obtain rfl := Option.some.inj h
    obtain ⟨t, lexer, opened, entities, events, ht, hl, -, -, hnext⟩ := exists_of_call_token (call_of_tokenOfCall htoken)
    obtain rfl := Option.some.inj (htoken.symm.trans ht)
    obtain ⟨-, c, scanned, hskip, hscanned, hvalue, rfl⟩ := Lexer.exists_of_next?_entity hl
    obtain ⟨skipped, hskipped, -⟩ := (Lexer.reaches_of_skipDeclarations hskip).split
    obtain ⟨written, hwritten, hdeclares⟩ := Production.writtenAs_of_entityDeclaration hscanned hvalue
    refine ⟨skipped, written, ?_, ?_⟩
    · rw [hskipped, hwritten, hnext, List.append_assoc]
    · have hsees : (r.afterCalls k).lexer.seesParameter = Production.seesParameter c := by
        rw [Lexer.seesParameter, hskip]
      rw [hsees]
      exact hdeclares
  · simp at h

/-! ### The table of a reader -/

/-- The table has this entry for the declaration. -/
def IsEntryOf (entry : List Char × List Char) (d : EntityDeclaration) : Prop :=
  entry.1 = d.name ∧ replacementText d.value = .ok entry.2

/-- Calls that read tokens have added what they have read of declarations to the predefined entities. -/
theorem entities_afterCalls {source : List Char} {systemId : Option String} {n : Nat} :
    let r := start source systemId
    (∀ k < n, (r.call k).2 = .token) →
      ∃ added, (r.afterCalls n).entities = Entities.predefined ++ added ∧
        List.Forall₂ IsEntryOf added (r.declarationsOfCalls n) := by
  intro r h
  induction n with
  | zero => exact ⟨[], rfl, .nil⟩
  | succ n ih =>
    obtain ⟨added, hadded, hentries⟩ := ih fun k hk => h k (Nat.lt_succ_of_lt hk)
    obtain ⟨t, lexer, opened, entities, events, ht, hl, htake, -, hnext⟩ := exists_of_call_token (h n (Nat.lt_succ_self n))
    have hafter : (r.afterCalls (n + 1)).entities = entities := congrArg (·.entities) hnext
    have htakes := takes_of_takeToken htake
    rw [hafter, declarationsOfCalls]
    have hother : entities = (r.afterCalls n).entities → (∀ name value, t ≠ .entity name (some value)) →
        ∃ added, entities = Entities.predefined ++ added ∧
          List.Forall₂ IsEntryOf added (r.declarationsOfCalls n ++ (r.declarationOfCall n).toList) := by
      rintro rfl hne
      have hnone : r.declarationOfCall n = none := by
        unfold declarationOfCall
        rw [ht]
        split
        · rename_i name value heq
          exact absurd (Option.some.inj heq) (hne name value)
        · rfl
      rw [hnone, Option.toList_none, List.append_nil]
      exact ⟨added, hadded, hentries⟩
    cases htakes with
    | @entity name value text htext =>
      have hdeclared : r.declarationOfCall n =
          some ⟨(r.afterCalls n).lexer.seesParameter, name.chars, value⟩ := by
        unfold declarationOfCall
        rw [ht]
      rw [hdeclared]
      refine ⟨added ++ [(name.chars, text)], ?_, List.rel_append hentries (.cons ⟨rfl, htext⟩ .nil)⟩
      show (r.afterCalls n).entities ++ [(name.chars, text)] = _
      rw [hadded, List.append_assoc]
    | _ => exact hother rfl (by simp)

private theorem lookup_of_entries {added : Entities} {ds : List EntityDeclaration} (h : List.Forall₂ IsEntryOf added ds)
    (name text : List Char) : List.lookup name added = some text ↔
      ∃ d, ds.find? (·.name = name) = some d ∧ replacementText d.value = .ok text := by
  induction h with
  | nil => simp
  | @cons entry d added ds hentry _ ih =>
    obtain ⟨declared, stored⟩ := entry
    obtain ⟨hname, htext⟩ := hentry
    dsimp only at hname htext
    subst hname
    by_cases hname : d.name = name
    · subst hname
      rw [List.lookup_cons_self, List.find?_cons_of_pos (by simp)]
      constructor
      · intro hstored
        exact ⟨d, rfl, by rw [htext, Option.some.inj hstored]⟩
      · rintro ⟨d', hd', htext'⟩
        obtain rfl := Option.some.inj hd'
        rw [Except.ok.inj (htext.symm.trans htext')]
    · have hother : (name == d.name) = false := beq_false_of_ne (Ne.symm hname)
      rw [List.lookup_cons, hother, List.find?_cons_of_neg (by simpa using hname)]
      exact ih

/-- A predefined name keeps its meaning, and any other name has the replacement text of its first declaration. -/
theorem get?_afterCalls {source : List Char} {systemId : Option String} {n : Nat} {name text : List Char} :
    let r := start source systemId
    (∀ k < n, (r.call k).2 = .token) →
      ((r.afterCalls n).entities.get? name = some text ↔ Entities.predefined.get? name = some text ∨
        Entities.predefined.get? name = none ∧ ∃ d, (r.declarationsOfCalls n).find? (·.name = name) = some d ∧
          replacementText d.value = .ok text) := by
  intro r h
  obtain ⟨added, hadded, hentries⟩ := entities_afterCalls h
  rw [hadded, Entities.get?, List.lookup_append, Option.or_eq_some_iff, lookup_of_entries hentries]
  rfl

theorem exists_declarationOfCall_of_mem {r : Reader} {n : Nat} {d : EntityDeclaration}
    (h : d ∈ r.declarationsOfCalls n) : ∃ k < n, r.declarationOfCall k = some d := by
  induction n with
  | zero => simp [declarationsOfCalls] at h
  | succ n ih =>
    rw [declarationsOfCalls, List.mem_append, Option.mem_toList] at h
    rcases h with h | h
    · obtain ⟨k, hk, hd⟩ := ih h
      exact ⟨k, Nat.lt_succ_of_lt hk, hd⟩
    · exact ⟨n, Nat.lt_succ_self n, h⟩

/-! ### Behind the prolog -/

private theorem not_isProlog_afterCalls {r : Reader} {k n : Nat} (h : ¬ (r.afterCalls k).lexer.phase.IsProlog)
    (hkn : k ≤ n) :
    ¬ (r.afterCalls n).lexer.phase.IsProlog := by
  induction n, hkn using Nat.le_induction with
  | base => exact h
  | succ n _ ih =>
    by_cases htoken : (r.call n).2 = .token
    · obtain ⟨t, lexer, opened, entities, events, -, hl, -, -, hnext⟩ := exists_of_call_token htoken
      rw [hnext]
      exact fun hprolog => ih ((Lexer.goes_of_next? hl).isProlog_iff.1 hprolog).1
    · rw [(afterCalls_succ_of_ne_token htoken).1]
      exact ih

private theorem declarationOfCall_eq_none {r : Reader} {k : Nat} (h : ¬ (r.afterCalls k).lexer.phase.IsProlog) :
    r.declarationOfCall k = none := by
  unfold declarationOfCall
  split
  · rename_i name value htoken
    obtain ⟨t, lexer, opened, entities, events, ht, hl, -, -, -⟩ := exists_of_call_token (call_of_tokenOfCall htoken)
    obtain rfl := Option.some.inj (htoken.symm.trans ht)
    rw [(Lexer.exists_of_next?_entity hl).1] at h
    exact absurd trivial h
  · rfl

/-- Once the prolog is over, all declarations have been read. -/
theorem declarationsOfCalls_eq {r : Reader} {k n : Nat} (h : ¬ (r.afterCalls k).lexer.phase.IsProlog) (hkn : k ≤ n) :
    r.declarationsOfCalls n = r.declarationsOfCalls k := by
  induction n, hkn using Nat.le_induction with
  | base => rfl
  | succ n hkn ih =>
    rw [declarationsOfCalls, declarationOfCall_eq_none (not_isProlog_afterCalls h hkn), ih, Option.toList_none,
      List.append_nil]

end Reader

end MapMarkup.Xml
