import MapMarkup.CommandLine.Check

/-!
# The program

Reads the files that the command line names, checks them, and writes the reports to standard error.
-/

namespace MapMarkup

/-- How the program is to be called. -/
def usage : String :=
  "usage: check [--css-source] [--warnings-as-errors] [FILE]..."

/-- The text of a file, or why it cannot be read; one reason is that it is not UTF-8. -/
def readText (name : String) : IO (Except String (List Char)) := do
  try return .ok (← IO.FS.readFile name).toList
  catch e => return .error (toString e)

end MapMarkup

open MapMarkup MapMarkup.CommandLine in
/-- Runs the command line and gives its exit status. -/
def main (arguments : List String) : IO UInt32 := do
  match Invocation.ofArguments arguments with
  | .inform =>
    IO.println usage
    return 0
  | .refuse =>
    IO.eprintln usage
    return 1
  | .check flags names =>
    let files ← names.mapM fun name => return (⟨name, ← readText name⟩ : File)
    let render : Rendering String := fun name source reports =>
      .join ((inLines name source reports).map (· ++ "\n"))
    let result := check render flags files
    for printed in result.printed do
      IO.eprint printed.text
    return result.status.toUInt32
