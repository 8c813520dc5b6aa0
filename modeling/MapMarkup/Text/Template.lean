/-!
# Variables of a URI template

A variable stands between braces and has at least one character, none of them a slash. Reading goes from left to
right: at an opening brace the shortest variable is taken, and reading goes on after its closing brace; where no
variable starts, reading goes on with the next character. A name may hold braces, as long as only its first
character is a closing one.
-/

namespace MapMarkup.Text

/-- The characters that a name may have after its first one. -/
def continuesName (c : Char) : Bool :=
  c ≠ '\x7d' && c ≠ '/'

/-- The variable whose opening brace has just been read, with what follows its closing brace. -/
def variableAfterBrace : List Char → Option (List Char × List Char)
  | [] => none
  | c :: cs =>
    if c = '/' then none
    else
      match cs.dropWhile continuesName with
      | '\x7d' :: rest => some (c :: cs.takeWhile continuesName, rest)
      | _ => none

private theorem length_of_variableAfterBrace {cs name rest : List Char}
    (h : variableAfterBrace cs = some (name, rest)) :
    rest.length < cs.length := by
  cases cs with
  | nil => simp [variableAfterBrace] at h
  | cons c cs =>
    simp only [variableAfterBrace] at h
    split at h
    · simp at h
    · split at h
      · rename_i r hd
        obtain ⟨-, rfl⟩ : _ ∧ r = rest := by simpa using h
        have := (List.dropWhile_suffix continuesName : _ <:+ cs).length_le
        rw [hd] at this
        simp only [List.length_cons] at this ⊢
        omega
      · simp at h

/-- The names of the variables of a template, in order of appearance. -/
def variableChars : List Char → List (List Char)
  | [] => []
  | c :: cs =>
    if c = '\x7b' then
      match _h : variableAfterBrace cs with
      | some (name, rest) => name :: variableChars rest
      | none => variableChars cs
    else variableChars cs
termination_by cs => cs.length
decreasing_by
  · have := length_of_variableAfterBrace _h; simp only [List.length_cons]; omega
  · simp
  · simp

/-- The names of the variables of a template, in order of appearance. -/
def templateVariables (template : String) : List String :=
  (variableChars template.toList).map String.ofList

end MapMarkup.Text
