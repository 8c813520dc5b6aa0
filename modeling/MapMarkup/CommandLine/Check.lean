import MapMarkup.CommandLine.Arguments

/-!
# The command `check`

The outermost layer: reports are shown in a short form, by their messages and places, and a file that cannot be read is
known by the exit status. What the command does is the matter of `CommandLine.check`, whatever the form of the reports.
-/

namespace MapMarkup.CommandLine

/-- The place in a document before the byte at an offset, if there is one. -/
def placeOf (source : List Char) (offset : Nat) : Position :=
  go .start source
where
  /-- The place, which is `p` or behind it. -/
  go (p : Position) : List Char → Position
    | [] => p
    | c :: cs => if offset ≤ p.offset then p else go (p.advance c) cs

/-- The lines of a report: its message, and the place where its primary mark starts. -/
def reportLines (name : String) (source : List Char) (r : Report) : List String :=
  let level := match r.level with
    | .error => "error: "
    | .warning => "warning: "
  (level ++ r.message) ::
    ((r.marks.find? (·.primary)).toList.map fun mark =>
      "--> " ++ name ++ ":" ++ (placeOf source mark.span.low).lineColumn)

/-- The short form of reports. -/
def inLines : Rendering (List String) :=
  fun name source reports => reports.flatMap (reportLines name source)

/-- The lines of all reports that are printed. -/
def Result.lines (result : Result (List String)) : List String :=
  result.printed.flatMap fun
    | .unreadable _ _ => []
    | .reports shown => shown

/-- What a command line comes to, if `read` gives the texts of the files that can be read. -/
def run (read : String → Option (List Char)) (arguments : List String) : Result (List String) :=
  match Invocation.ofArguments arguments with
  | .check flags names =>
    check inLines flags (names.map fun name => ⟨name, (read name).elim (.error "not readable") .ok⟩)
  | .inform => ⟨0, []⟩
  | .refuse => ⟨1, []⟩

end MapMarkup.CommandLine
