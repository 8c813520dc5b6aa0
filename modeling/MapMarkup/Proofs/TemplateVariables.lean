import Mathlib.Data.List.TakeWhile
import MapMarkup.Text.Template

/-!
# Which variables a template has

A template is cut into gaps and variables: a gap, a variable in its braces, a gap, and so on, up to the last gap
(`joined`). Its variables are the names of a cut from left to right, in which each name ends as soon as it can, and in
no gap of which a variable starts, be it one that goes on behind the gap (`templateVariables_eq_iff`). So names without
slashes and braces that are put into braces and joined by texts without opening braces are read back as they are.
-/

namespace MapMarkup.Text

/-- A text starts with a variable if at least one character, none of them a slash, stands between an opening brace at
its start and a closing brace. -/
def StartsVariable (cs : List Char) : Prop :=
  ∃ name rest, cs = '\x7b' :: (name ++ '\x7d' :: rest) ∧ name ≠ [] ∧ '/' ∉ name

/-- A name that no closing brace ends sooner: only its first character may be one. -/
structure IsShortest (name : List Char) : Prop where
  ne_nil : name ≠ []
  not_slash : '/' ∉ name
  not_brace : '\x7d' ∉ name.tail

/-- No variable starts in the gap, be it that it ends there or in the text behind the gap. -/
def Clear (gap behind : List Char) : Prop :=
  ∀ before after, gap = before ++ after → after ≠ [] → ¬ StartsVariable (after ++ behind)

/-- The template that starts with the gap and goes on with variables, each of them in braces and with a gap behind. -/
def joined (gap : List Char) : List (List Char × List Char) → List Char
  | [] => gap
  | (name, next) :: parts => gap ++ '\x7b' :: (name ++ '\x7d' :: joined next parts)

/-- No variable starts in any of the gaps of a template. -/
def AllClear (gap : List Char) : List (List Char × List Char) → Prop
  | [] => Clear gap []
  | (name, next) :: parts => Clear gap ('\x7b' :: (name ++ '\x7d' :: joined next parts)) ∧ AllClear next parts

/-- The text is cut into gaps and variables from left to right, at the first place where a variable starts and as soon
as its name can end. -/
structure IsCut (cs gap : List Char) (parts : List (List Char × List Char)) : Prop where
  eq_joined : cs = joined gap parts
  isShortest : ∀ p ∈ parts, IsShortest p.1
  allClear : AllClear gap parts

variable {cs name rest gap behind : List Char}

/-! ### Variables at a brace -/

private theorem continuesName_eq_true_iff {c : Char} : continuesName c = true ↔ c ≠ '\x7d' ∧ c ≠ '/' := by
  simp [continuesName]

/-- Behind an opening brace, the shortest name is read. -/
private theorem variableAfterBrace_append (h : IsShortest name) (rest : List Char) :
    variableAfterBrace (name ++ '\x7d' :: rest) = some (name, rest) := by
  obtain ⟨hne, hslash, hbrace⟩ := h
  rcases name with _ | ⟨c, cs⟩
  · exact absurd rfl hne
  · rw [List.mem_cons, not_or] at hslash
    have hgoes : ∀ d ∈ cs, continuesName d = true := by
      intro d hd
      refine continuesName_eq_true_iff.2 ⟨?_, ?_⟩
      · rintro rfl
        exact hbrace hd
      · rintro rfl
        exact hslash.2 hd
    have hstop : ¬ continuesName '\x7d' = true := by decide
    rw [List.cons_append, variableAfterBrace, if_neg (Ne.symm hslash.1), List.dropWhile_append_of_pos hgoes,
      List.takeWhile_append_of_pos hgoes, List.dropWhile_cons_of_neg hstop, List.takeWhile_cons_of_neg hstop,
      List.append_nil]
    rfl

private theorem variableAfterBrace_eq_some_iff :
    variableAfterBrace cs = some (name, rest) ↔ cs = name ++ '\x7d' :: rest ∧ IsShortest name := by
  constructor
  · intro h
    rcases cs with _ | ⟨c, cs⟩
    · simp [variableAfterBrace] at h
    · simp only [variableAfterBrace] at h
      split at h
      · simp at h
      · rename_i hslash
        split at h
        · rename_i rest' hdrop
          obtain ⟨rfl, rfl⟩ := Prod.mk.inj (Option.some.inj h)
          have hgoes : ∀ d ∈ cs.takeWhile continuesName, d ≠ '\x7d' ∧ d ≠ '/' := fun d hd =>
            continuesName_eq_true_iff.1 (List.mem_takeWhile_imp hd)
          refine ⟨?_, by simp, ?_, fun hmem => (hgoes _ hmem).1 rfl⟩
          · rw [List.cons_append, ← hdrop, List.takeWhile_append_dropWhile]
          · rw [List.mem_cons, not_or]
            exact ⟨Ne.symm hslash, fun hmem => (hgoes _ hmem).2 rfl⟩
        · simp at h
  · rintro ⟨rfl, h⟩
    exact variableAfterBrace_append h rest

/-- If any name stands between the braces, a shortest one does. -/
private theorem exists_isShortest (hne : name ≠ []) (hslash : '/' ∉ name) (rest : List Char) :
    ∃ name' rest', name ++ '\x7d' :: rest = name' ++ '\x7d' :: rest' ∧ IsShortest name' := by
  rcases name with _ | ⟨c, cs⟩
  · exact absurd rfl hne
  · by_cases hbrace : '\x7d' ∈ cs
    · obtain ⟨front, back, rfl, hfront⟩ := List.eq_append_cons_of_mem hbrace
      refine ⟨c :: front, back ++ '\x7d' :: rest, by simp, by simp, fun hmem => hslash ?_, hfront⟩
      rw [← List.cons_append]
      exact List.mem_append_left _ hmem
    · exact ⟨c :: cs, rest, rfl, hne, hslash, hbrace⟩

private theorem startsVariable_cons_iff {c : Char} :
    StartsVariable (c :: cs) ↔ c = '\x7b' ∧ ∃ found, variableAfterBrace cs = some found := by
  constructor
  · rintro ⟨name, rest, h, hne, hslash⟩
    obtain ⟨rfl, rfl⟩ := List.cons.inj h
    obtain ⟨name', rest', heq, hshortest⟩ := exists_isShortest hne hslash rest
    exact ⟨rfl, (name', rest'), variableAfterBrace_eq_some_iff.2 ⟨heq, hshortest⟩⟩
  · rintro ⟨rfl, ⟨name, rest⟩, h⟩
    obtain ⟨rfl, hshortest⟩ := variableAfterBrace_eq_some_iff.1 h
    exact ⟨name, rest, rfl, hshortest.ne_nil, hshortest.not_slash⟩

/-! ### Steps of the reading -/

/-- Where a variable starts, it is read. -/
private theorem variableChars_variable (h : IsShortest name) (rest : List Char) :
    variableChars ('\x7b' :: (name ++ '\x7d' :: rest)) = name :: variableChars rest := by
  rw [variableChars, if_pos rfl]
  split
  · rename_i name' rest' hfound
    obtain ⟨rfl, rfl⟩ := Prod.mk.inj (Option.some.inj (hfound.symm.trans (variableAfterBrace_append h rest)))
    rfl
  · rename_i hnone
    simp [variableAfterBrace_append h rest] at hnone

/-- Where none starts, reading goes on with the next character. -/
private theorem variableChars_cons_of_not {c : Char} (h : ¬ StartsVariable (c :: cs)) :
    variableChars (c :: cs) = variableChars cs := by
  rw [variableChars]
  split
  · rename_i hbrace
    split
    · rename_i name rest hfound
      exact absurd (startsVariable_cons_iff.2 ⟨hbrace, _, hfound⟩) h
    · rfl
  · rfl

private theorem Clear.tail {c : Char} (h : Clear (c :: gap) behind) : Clear gap behind :=
  fun before after hgap hne => h (c :: before) after (by rw [hgap, List.cons_append]) hne

private theorem clear_cons_iff {c : Char} :
    Clear (c :: gap) behind ↔ ¬ StartsVariable (c :: (gap ++ behind)) ∧ Clear gap behind := by
  refine ⟨fun h => ⟨h [] (c :: gap) rfl (by simp), h.tail⟩, ?_⟩
  rintro ⟨hfirst, hrest⟩ before after hgap hne
  rcases before with _ | ⟨d, before⟩
  · obtain rfl : c :: gap = after := hgap
    exact hfirst
  · exact hrest before after (List.cons.inj hgap).2 hne

private theorem clear_nil (behind : List Char) : Clear [] behind := by
  intro before after hgap hne
  exact absurd (List.append_eq_nil_iff.1 hgap.symm).2 hne

/-- Without an opening brace there is no variable. -/
private theorem clear_of_not_mem (h : '\x7b' ∉ gap) (behind : List Char) : Clear gap behind := by
  induction gap with
  | nil => exact clear_nil behind
  | cons c gap ih =>
    rw [List.mem_cons, not_or] at h
    exact clear_cons_iff.2 ⟨fun hstarts => h.1 (startsVariable_cons_iff.1 hstarts).1.symm, ih h.2⟩

/-- A gap is passed over. -/
private theorem variableChars_append (h : Clear gap behind) : variableChars (gap ++ behind) = variableChars behind := by
  induction gap with
  | nil => rfl
  | cons c gap ih =>
    obtain ⟨hfirst, hrest⟩ := clear_cons_iff.1 h
    rw [List.cons_append, variableChars_cons_of_not hfirst, ih hrest]

/-! ### Cuts of a template -/

/-- The names of a cut are what is read. -/
private theorem IsCut.variableChars_eq {parts : List (List Char × List Char)} (h : IsCut cs gap parts) :
    variableChars cs = parts.map Prod.fst := by
  obtain ⟨rfl, hnames, hgaps⟩ := h
  induction parts generalizing gap with
  | nil =>
    have hread : variableChars (gap ++ []) = variableChars [] := variableChars_append hgaps
    rw [List.append_nil] at hread
    rw [joined, hread, variableChars, List.map_nil]
  | cons p parts ih =>
    obtain ⟨name, next⟩ := p
    have hname : IsShortest name := hnames (name, next) (by simp)
    rw [joined, variableChars_append hgaps.1, variableChars_variable hname,
      ih (fun p hp => hnames p (List.mem_cons_of_mem _ hp)) hgaps.2, List.map_cons]

/-- One character more at the start, where no variable starts. -/
private theorem IsCut.cons {c : Char} {parts : List (List Char × List Char)} (h : IsCut cs gap parts)
    (hc : ¬ StartsVariable (c :: cs)) : IsCut (c :: cs) (c :: gap) parts := by
  obtain ⟨rfl, hnames, hgaps⟩ := h
  cases parts with
  | nil =>
    have hfirst : ¬ StartsVariable (c :: (gap ++ [])) := by rwa [List.append_nil]
    exact ⟨rfl, hnames, clear_cons_iff.2 ⟨hfirst, hgaps⟩⟩
  | cons p parts => exact ⟨rfl, hnames, clear_cons_iff.2 ⟨hc, hgaps.1⟩, hgaps.2⟩

/-- One variable more at the start. -/
private theorem IsCut.brace {parts : List (List Char × List Char)} (h : IsCut rest gap parts)
    (hname : IsShortest name) :
    IsCut ('\x7b' :: (name ++ '\x7d' :: rest)) [] ((name, gap) :: parts) := by
  obtain ⟨rfl, hnames, hgaps⟩ := h
  refine ⟨rfl, fun p hp => ?_, clear_nil _, hgaps⟩
  rcases List.mem_cons.1 hp with rfl | hp
  · exact hname
  · exact hnames p hp

private theorem exists_isCut (cs : List Char) : ∃ gap parts, IsCut cs gap parts := by
  fun_induction variableChars cs with
  | case1 => exact ⟨[], [], rfl, by simp, clear_nil []⟩
  | case2 cs name rest hfound ih =>
    obtain ⟨gap, parts, hcut⟩ := ih
    obtain ⟨rfl, hname⟩ := variableAfterBrace_eq_some_iff.1 hfound
    exact ⟨_, _, hcut.brace hname⟩
  | case3 cs hnone ih =>
    obtain ⟨gap, parts, hcut⟩ := ih
    refine ⟨_, _, hcut.cons fun hstarts => ?_⟩
    obtain ⟨-, found, hfound⟩ := startsVariable_cons_iff.1 hstarts
    simp [hnone] at hfound
  | case4 c cs hbrace ih =>
    obtain ⟨gap, parts, hcut⟩ := ih
    exact ⟨_, _, hcut.cons fun hstarts => hbrace (startsVariable_cons_iff.1 hstarts).1⟩

private theorem allClear_of_not_mem {parts : List (List Char × List Char)} (hgap : '\x7b' ∉ gap)
    (hparts : ∀ p ∈ parts, '\x7b' ∉ p.2) : AllClear gap parts := by
  induction parts generalizing gap with
  | nil => exact clear_of_not_mem hgap []
  | cons p parts ih =>
    exact ⟨clear_of_not_mem hgap _, ih (hparts p (by simp)) fun p hp => hparts p (List.mem_cons_of_mem _ hp)⟩

/-- The variables of a template are the names of its cut from left to right, at the first place where a variable starts
and as soon as the name can end. Where names without slashes and braces are put into braces and joined by texts without
opening braces, they are the variables. -/
theorem templateVariables_eq_iff (template : String) :
    (∀ names, templateVariables template = names ↔
      ∃ gap parts, IsCut template.toList gap parts ∧ names = parts.map fun p => .ofList p.1) ∧
    ∀ (gap : List Char) (parts : List (List Char × List Char)), template.toList = joined gap parts → '\x7b' ∉ gap →
      (∀ p ∈ parts, '\x7b' ∉ p.2) → (∀ p ∈ parts, p.1 ≠ [] ∧ '/' ∉ p.1 ∧ '\x7b' ∉ p.1 ∧ '\x7d' ∉ p.1) →
        templateVariables template = parts.map fun p => .ofList p.1 := by
  have hread : ∀ gap parts, IsCut template.toList gap parts →
      templateVariables template = parts.map fun p => .ofList p.1 := by
    intro gap parts hcut
    rw [templateVariables, hcut.variableChars_eq, List.map_map]
    rfl
  refine ⟨fun names => ⟨?_, ?_⟩, fun gap parts htemplate hgap hgaps hnames => ?_⟩
  · rintro rfl
    obtain ⟨gap, parts, hcut⟩ := exists_isCut template.toList
    exact ⟨gap, parts, hcut, hread gap parts hcut⟩
  · rintro ⟨gap, parts, hcut, rfl⟩
    exact hread gap parts hcut
  · refine hread gap parts ⟨htemplate, fun p hp => ?_, allClear_of_not_mem hgap hgaps⟩
    obtain ⟨hne, hslash, -, hbrace⟩ := hnames p hp
    exact ⟨hne, hslash, fun hmem => hbrace (List.mem_of_mem_tail hmem)⟩

/-- Of the first braces a closing one is the name, and an opening one can be part of a name. -/
example : templateVariables "\x7b\x7d\x7bx\x7d/\x7b\x7by\x7d\x7d\x7ba/b\x7d" = ["\x7d\x7bx", "\x7by"] := by
  decide +kernel

end MapMarkup.Text
