import MapMarkup.Proofs.CharacterNumbers
import MapMarkup.Proofs.EntityDeclarations
import MapMarkup.Proofs.ReferencePlaces

/-!
# What references to entities insert

The replacement text of an entity is its value with the references to characters replaced; references to entities stay
as they are written (`ReplacementOf`). Where an entity is referred to, this text is inserted as it is. A predefined name
stands for the same text whatever is declared, and any other name for the replacement text of its first declaration; for
a name without a declaration there is an error that names it (`Reader.read_entityReference`). All this goes for
declarations of general and of parameter entities alike, so a parameter entity may take the name of a general one.
-/

namespace MapMarkup.Xml

/-! ### Replacement texts -/

/-- Replacing the references to characters in a value gives the text, where references to entities are kept. An ampersand
at the end that opens nothing is left out. -/
inductive ReplacementOf : List Char → List Char → Prop
  | run {run : List Char} (hrun : '&' ∉ run) : ReplacementOf run run
  | lastAmpersand {run : List Char} (hrun : '&' ∉ run) : ReplacementOf (run ++ ['&']) run
  | character {run number cs text : List Char} {c : Char} (hrun : '&' ∉ run) (hnumber : ';' ∉ number)
    (hc : WritesCharacter number c) (hcs : ReplacementOf cs text) :
    ReplacementOf (run ++ '&' :: ('#' :: number ++ ';' :: cs)) (run ++ c :: text)
  | entity {run name cs text : List Char} (hrun : '&' ∉ run) (hname : ';' ∉ name) (hsign : name.head? ≠ some '#')
    (hcs : ReplacementOf cs text) :
    ReplacementOf (run ++ '&' :: (name ++ ';' :: cs)) (run ++ '&' :: (name ++ ';' :: text))

namespace Substitution

private theorem replacement_eq_ok_of_replacementOf {cs text : List Char} (h : ReplacementOf cs text) (o : Nat) :
    replacement.apply ⟨o, cs⟩ = .ok text := by
  induction h generalizing o with
  | run hrun => exact apply_run _ hrun
  | lastAmpersand hrun => exact apply_lastAmpersand _ hrun
  | @character run number cs text c hrun hnumber hc hcs ih =>
    have hwritten : ';' ∉ '#' :: number := by simp [hnumber]
    have hpiece : ∀ o, replacement.piece (.reference ⟨o, '#' :: number⟩) = .ok [c] := by
      intro o
      simp only [piece, referent_numberSign_eq_character_iff.2 hc]
    rw [apply_reference _ hrun hwritten, hpiece, ih]
    rfl
  | @entity run name cs text hrun hname hsign hcs ih =>
    have hpiece : ∀ o, replacement.piece (.reference ⟨o, name⟩) = .ok ('&' :: name ++ [';']) := by
      intro o
      simp only [piece, referent_eq_entity_iff.2 hsign]
      rfl
    rw [apply_reference _ hrun hname, hpiece, ih]
    simp [replacement]

private theorem replacementOf_of_replacement_eq_ok {cs text : List Char} {o : Nat}
    (h : replacement.apply ⟨o, cs⟩ = .ok text) : ReplacementOf cs text := by
  induction cs using induction_pieces generalizing o text with
  | nil =>
    rw [apply_nil] at h
    obtain rfl := Except.ok.inj h
    exact .run (by simp)
  | plain run hrun _ =>
    rw [apply_run _ hrun] at h
    obtain rfl := Except.ok.inj h
    exact .run hrun
  | last run hrun =>
    rw [apply_lastAmpersand _ hrun] at h
    obtain rfl := Except.ok.inj h
    exact .lastAmpersand hrun
  | unclosed run cs hrun hne hcs => simp [apply_unclosed _ hrun hne hcs] at h
  | reference run written cs hrun hwritten ih =>
    rw [apply_reference _ hrun hwritten, followedBy_eq_ok_iff] at h
    obtain ⟨_, rest, hfirst, hrest, rfl⟩ := h
    obtain rfl := Except.ok.inj hfirst
    obtain ⟨part, later, hpart, hlater, rfl⟩ := followedBy_eq_ok_iff.1 hrest
    have hcs := ih hlater
    simp only [piece] at hpart
    split at hpart
    · rename_i c hreferent
      obtain rfl := Except.ok.inj hpart
      obtain ⟨number, rfl⟩ : ∃ number, written = '#' :: number := by
        rw [← List.head?_eq_some_iff]
        by_contra hsign
        simp [referent_eq_entity_iff.2 hsign] at hreferent
      have hnumber : ';' ∉ number := fun hmem => hwritten (List.mem_cons_of_mem _ hmem)
      exact .character hrun hnumber (referent_numberSign_eq_character_iff.1 hreferent) hcs
    · simp at hpart
    · rename_i hreferent
      obtain rfl := Except.ok.inj hpart
      have := ReplacementOf.entity hrun hwritten (referent_eq_entity_iff.1 hreferent) hcs
      simpa [replacement] using this

end Substitution

private theorem replacementText_eq_ok_iff {value : Passage} {text : List Char} :
    replacementText value = .ok text ↔ ReplacementOf value.chars text := by
  rw [Substitution.replacementText_eq_apply]
  constructor
  · exact fun h => Substitution.replacementOf_of_replacement_eq_ok h
  · exact fun h => Substitution.replacement_eq_ok_of_replacementOf h value.offset

/-! ### References -/

/-- What a reference to the name inserts when these are the declarations. -/
def InsertedFor (ds : List EntityDeclaration) (name text : List Char) : Prop :=
  Entities.predefined.get? name = some text ∨
  Entities.predefined.get? name = none ∧
    ∃ d, ds.find? (·.name = name) = some d ∧ ReplacementOf d.value.chars text

/-- The declarations of general entities. -/
def generalEntities (ds : List EntityDeclaration) : List EntityDeclaration :=
  ds.filter (!·.parameter)

/-- As long as no parameter entity has taken the name, it is the general entities that count. -/
private theorem insertedFor_generalEntities_iff {ds : List EntityDeclaration} {name text : List Char}
    (h : Entities.predefined.get? name = none → ∀ d, ds.find? (·.name = name) = some d → d.parameter = false) :
    InsertedFor (generalEntities ds) name text ↔ InsertedFor ds name text := by
  unfold InsertedFor
  refine or_congr_right (and_congr_right fun hnone => ?_)
  have hfind : (generalEntities ds).find? (·.name = name) = ds.find? (·.name = name) := by
    have hfirst := h hnone
    clear h hnone
    induction ds with
    | nil => rfl
    | cons d ds ih =>
      unfold generalEntities at ih ⊢
      by_cases hname : d.name = name
      · have hgeneral : d.parameter = false := hfirst d (by simp [hname])
        rw [List.filter_cons_of_pos (by simp [hgeneral]), List.find?_cons_of_pos (by simpa using hname),
          List.find?_cons_of_pos (by simpa using hname)]
      · have hrest := ih fun d' hd' => hfirst d' (by rw [List.find?_cons_of_neg (by simpa using hname), hd'])
        rw [List.find?_cons_of_neg (by simpa using hname), ← hrest]
        by_cases hgeneral : d.parameter = false
        · rw [List.filter_cons_of_pos (by simp [hgeneral]), List.find?_cons_of_neg (by simpa using hname)]
        · rw [List.filter_cons_of_neg (by simpa using hgeneral)]
  rw [hfind]

/-- In the passage stands a reference to the entity of a name, with no other reference open in front of it. -/
structure RefersTo (p : Passage) (left name right : List Char) : Prop where
  chars_eq : p.chars = left ++ '&' :: (name ++ ';' :: right)
  closed : Closed left
  not_mem : ';' ∉ name
  head?_ne : name.head? ≠ some '#'

namespace Purpose

variable {entities : Entities} {purpose : Purpose} {p : Passage} {left name right text : List Char}

private theorem piece_substitution (hpurpose : purpose ≠ .entityValue) (hname : name.head? ≠ some '#') (o : Nat) :
    (purpose.substitution entities).piece (.reference ⟨o, name⟩) =
      match entities.get? name with
      | some text => .ok text
      | none => .error (.undefinedEntity ⟨o, name⟩) := by
  simp only [Substitution.piece, referent_eq_entity_iff.2 hname]
  cases purpose with
  | entityValue => exact absurd rfl hpurpose
  | text | attributeValue => rfl

/-- The text of an entity is inserted between what is made of the parts in front of the reference and behind it. -/
private theorem read_eq_ok_iff (hpurpose : purpose ≠ .entityValue) (hp : RefersTo p left name right) :
    purpose.read entities p = .ok text ↔ ∃ before inserted after,
      purpose.read entities ⟨p.offset, left⟩ = .ok before ∧ entities.get? name = some inserted ∧
        purpose.read entities ⟨p.offset + utf8Size left + 1 + utf8Size name + 1, right⟩ = .ok after ∧
        text = before ++ inserted ++ after := by
  obtain ⟨o, cs⟩ := p
  obtain ⟨rfl, hclosed, hmem, hhead⟩ := hp
  have hinserted : ∀ inserted, (purpose.substitution entities).piece (.reference ⟨o + utf8Size left + 1, name⟩) =
      .ok inserted ↔ entities.get? name = some inserted := by
    intro inserted
    rw [piece_substitution hpurpose hhead]
    cases entities.get? name <;> simp
  simp only [read_eq_apply]
  rw [Substitution.apply_append_reference _ hclosed hmem]
  simp only [followedBy_eq_ok_iff, hinserted]
  constructor
  · rintro ⟨before, rest, hbefore, ⟨inserted, after, hget, hafter, rfl⟩, rfl⟩
    exact ⟨before, inserted, after, hbefore, hget, hafter, (List.append_assoc _ _ _).symm⟩
  · rintro ⟨before, inserted, after, hbefore, hget, hafter, rfl⟩
    exact ⟨before, inserted ++ after, hbefore, ⟨inserted, after, hget, hafter, rfl⟩, List.append_assoc _ _ _⟩

private theorem read_eq_error (hpurpose : purpose ≠ .entityValue) (hp : RefersTo p left name right)
    (hname : entities.get? name = none) (hleft : purpose.read entities ⟨p.offset, left⟩ = .ok text) :
    purpose.read entities p = .error (.undefinedEntity ⟨p.offset + utf8Size left + 1, name⟩) := by
  obtain ⟨o, cs⟩ := p
  obtain ⟨rfl, hclosed, hmem, hhead⟩ := hp
  rw [read_eq_apply] at hleft ⊢
  rw [Substitution.apply_append_reference _ hclosed hmem, hleft, piece_substitution hpurpose hhead, hname]
  rfl

end Purpose

namespace Reader

variable {source : List Char} {systemId : Option String} {k : Nat} {purpose : Purpose} {ps : List Passage}

/-- Text and the values of attributes come behind the prolog. -/
private theorem Treats.not_isProlog {r : Reader} (h : r.Treats k purpose ps) (hpurpose : purpose ≠ .entityValue) :
    ¬ (r.afterCalls k).lexer.phase.IsProlog := by
  cases h with
  | text _ hl =>
    obtain ⟨depth, hphase⟩ := (Lexer.goes_of_next? hl).exists_of_text
    rw [hphase]
    exact id
  | entityValue => exact absurd rfl hpurpose
  | attributeValues hend _ =>
    obtain ⟨-, t, lexer, hl, ht⟩ := hend
    obtain ⟨depth, hphase⟩ := (Lexer.goes_of_next? hl).exists_of_tagEnd ht
    rw [hphase]
    exact id

private theorem get?_eq_some_iff_insertedFor (h : ∀ j < k, ((start source systemId).call j).2 = .token)
    {name text : List Char} :
    ((start source systemId).afterCalls k).entities.get? name = some text ↔
      InsertedFor ((start source systemId).declarationsOfCalls k) name text := by
  rw [get?_afterCalls h]
  simp only [replacementText_eq_ok_iff, InsertedFor]

/-- In a document that is read without an error, every token that a lexer gives is read. -/
private theorem call_eq_token {t : Token} {lexer : Lexer} :
    let r := start source systemId
    r.error? = none → (∀ j < k, (r.call j).2 = .token) → (r.afterCalls k).lexer.next? = .ok (some (t, lexer)) →
      (r.call k).2 = .token := by
  intro r hread hbefore hl
  have hs := stage_ne_of_before hbefore
  cases htake : takeToken { r.afterCalls k with lexer } t with
  | error e =>
    have hcall : (r.call k).2 = .failed e := congrArg (·.2.2) (advance_of_failed hs hl htake)
    have herror := error?_eq (stopsAt_of_failed hcall) (by simp)
    exact absurd (herror.symm.trans hread) (by simp [Outcome.error?])
  | ok taken =>
    obtain ⟨opened, entities, events⟩ := taken
    exact congrArg (·.2.2) (advance_of_token hs hl htake)

private theorem Treats.call_eq_token :
    let r := start source systemId
    r.error? = none → r.Treats k purpose ps → (r.call k).2 = .token := by
  intro r hread h
  cases h with
  | text hbefore hl => exact Reader.call_eq_token hread hbefore hl
  | entityValue hbefore hl => exact Reader.call_eq_token hread hbefore hl
  | attributeValues hend _ =>
    obtain ⟨hbefore, t, lexer, hl, -⟩ := hend
    exact Reader.call_eq_token hread hbefore hl

/-- Where a text or the value of an attribute refers to an entity, the text of the entity is inserted, between what is
made of the parts in front of the reference and behind it; and the event has the text that comes out. What is inserted
is the predefined text or else the replacement text of the first declaration of the name in the DTD, where it has been
written as one of a general or of a parameter entity. It is that of the first general entity of this name, unless a
declaration of a parameter entity comes first. If the name is neither predefined nor declared, there is an error that
names it. -/
theorem read_entityReference (source : List Char) (systemId : Option String) :
    let r : Reader := start source systemId
    (∀ j d, r.declarationOfCall j = some d → ∃ skipped written, (r.afterCalls j).lexer.cursor.rest =
      skipped ++ written ++ (r.afterCalls (j + 1)).lexer.cursor.rest ∧ d.WrittenAs written) ∧
    ∀ k purpose earlier p later left name right, r.Treats k purpose (earlier ++ p :: later) →
      purpose ≠ .entityValue → RefersTo p left name right →
      let ds := r.declarationsOfCalls k
      let read := purpose.read (r.afterCalls k).entities
      (∀ n ≥ k, r.declarationsOfCalls n = ds) ∧
      (∀ text, read p = .ok text ↔ ∃ before inserted after, read ⟨p.offset, left⟩ = .ok before ∧
        InsertedFor ds name inserted ∧ read ⟨p.offset + utf8Size left + 1 + utf8Size name + 1, right⟩ = .ok after ∧
        text = before ++ inserted ++ after) ∧
      (r.error? = none → ∃ text, read p = .ok text ∧ .ofList text ∈ (r.call k).1.flatMap Event.texts) ∧
      (Entities.predefined.get? name = none → (∀ d ∈ ds, d.name ≠ name) →
        ∀ before, read ⟨p.offset, left⟩ = .ok before →
          read p = .error (.undefinedEntity ⟨p.offset + utf8Size left + 1, name⟩) ∧
          ∃ e, (r.call k).2 = .failed e ∧ (e = .undefinedEntity ⟨p.offset + utf8Size left + 1, name⟩ ∨
            (∃ q ∈ earlier, read q = .error e) ∨
            purpose = .attributeValue ∧ ∃ qualifier, e = .undefinedQualifier qualifier)) ∧
      ((Entities.predefined.get? name = none → ∀ d, ds.find? (·.name = name) = some d → d.parameter = false) →
        ∀ inserted, InsertedFor ds name inserted ↔ InsertedFor (generalEntities ds) name inserted) := by
  intro r
  refine ⟨fun j d => writtenAs_of_declarationOfCall, ?_⟩
  intro k purpose earlier p later left name right htreats hpurpose hp ds read
  have hget : ∀ text, Entities.get? (r.afterCalls k).entities name = some text ↔ InsertedFor ds name text :=
    fun text => get?_eq_some_iff_insertedFor htreats.before
  refine ⟨fun n hn => declarationsOfCalls_eq (htreats.not_isProlog hpurpose) hn, fun text => ?_, fun hread => ?_, ?_,
    fun hgeneral inserted => (insertedFor_generalEntities_iff hgeneral).symm⟩
  · simp only [← hget]
    exact Purpose.read_eq_ok_iff hpurpose hp
  · obtain ⟨texts, htexts, hevents⟩ := htreats.exists_texts (htreats.call_eq_token hread)
    obtain ⟨text, hmem, htext⟩ := exists_of_mem_forall₂ htexts (x := p) (by simp)
    refine ⟨text, htext, ?_⟩
    rw [hevents hpurpose]
    exact List.mem_map_of_mem hmem
  · intro hnone hundeclared before hbefore
    have hmissing : Entities.get? (r.afterCalls k).entities name = none := by
      rw [Option.eq_none_iff_forall_ne_some]
      intro text htext
      rcases (hget text).1 htext with hpredefined | ⟨-, d, hd, -⟩
      · simp [hnone] at hpredefined
      · exact hundeclared d (List.mem_of_find?_eq_some hd) (by simpa using List.find?_some hd)
    have hfails := Purpose.read_eq_error hpurpose hp hmissing hbefore
    exact ⟨hfails, htreats.call_of_error hfails⟩

/-- The text of `<a>&n;</a>` behind a declaration of a general entity. -/
theorem read_entityReference_general :
    let r := start "<!DOCTYPE a [<!ENTITY n 'x'>]><a>&n;</a>".toList none
    r.error? = none ∧ r.Treats 5 .text [⟨33, "&n;".toList⟩] ∧ RefersTo ⟨33, "&n;".toList⟩ [] ['n'] [] ∧
      InsertedFor (generalEntities (r.declarationsOfCalls 5)) ['n'] ['x'] ∧
      ∃ text, .ofList text ∈ (r.call 5).1.flatMap Event.texts := by
  intro r
  have hread : r.error? = none := by decide +kernel
  have htext : (r.afterCalls 5).lexer.next? =
      .ok (some (.text ⟨33, "&n;".toList⟩, ⟨.content 1, ⟨⟨36, 1, 37⟩, "</a>".toList⟩⟩)) := by decide +kernel
  have htreats : r.Treats 5 .text [⟨33, "&n;".toList⟩] := .text (by decide +kernel) htext
  have hp : RefersTo ⟨33, "&n;".toList⟩ [] ['n'] [] := ⟨rfl, .plain (by simp), by decide, by decide⟩
  have hdeclared : r.declarationsOfCalls 5 = [⟨false, ['n'], ⟨25, ['x']⟩⟩] := by decide +kernel
  obtain ⟨-, -, hinserts, -, hgeneral⟩ :=
    (read_entityReference "<!DOCTYPE a [<!ENTITY n 'x'>]><a>&n;</a>".toList none).2 5 .text [] _ [] [] ['n'] []
      htreats (by simp) hp
  have hinserted : InsertedFor (r.declarationsOfCalls 5) ['n'] ['x'] := by
    rw [hdeclared]
    exact .inr ⟨by decide +kernel, _, rfl, .run (by decide)⟩
  refine ⟨hread, htreats, hp, (hgeneral ?_ ['x']).1 hinserted, ?_⟩
  · rintro - d hd
    change (r.declarationsOfCalls 5).find? _ = some d at hd
    rw [hdeclared] at hd
    obtain rfl := Option.some.inj hd
    rfl
  · obtain ⟨text, -, hmem⟩ := hinserts hread
    exact ⟨text, hmem⟩

/-- A parameter entity is inserted where no general entity has been declared, and where one has been declared behind
it. -/
theorem error?_eq_none_of_parameterEntity :
    let undeclared := start "<!DOCTYPE a [<!ENTITY % n 'x'>]><a>&n;</a>".toList none
    let shadowed := start "<!DOCTYPE a [<!ENTITY % n 'x'><!ENTITY n 'y'>]><a>&n;</a>".toList none
    (undeclared.error? = none ∧ undeclared.tokenOfCall 5 = some (.text ⟨35, "&n;".toList⟩) ∧
      generalEntities (undeclared.declarationsOfCalls 5) = [] ∧ (undeclared.call 5).1 = [.characters "x"]) ∧
    (shadowed.error? = none ∧ shadowed.tokenOfCall 6 = some (.text ⟨50, "&n;".toList⟩) ∧
      generalEntities (shadowed.declarationsOfCalls 6) = [⟨false, ['n'], ⟨42, ['y']⟩⟩] ∧
      (shadowed.call 6).1 = [.characters "x"]) := by
  decide +kernel

end Reader

end MapMarkup.Xml
