import MapMarkup.CommandLine.Session

/-!
# Command line arguments

The command `check` takes files and two flags, in any order, each flag at most once; everything after `--` is a file,
and so is a single hyphen. A long flag may have more hyphens in front and a value behind an equals sign, neither of
which means anything. A request for help or for the version is granted as soon as it is read; a word that is no
argument is refused then, and a repeated flag at the end.

All this belongs to the outermost layer, which has a grammar of its own: `CommandLine.check` is given flags and files.
-/

namespace MapMarkup.CommandLine

/-- What a command line asks for. -/
inductive Invocation where
  | check (flags : List Flag) (files : List String)
  /-- Help or the version. -/
  | inform
  /-- The arguments make no sense. -/
  | refuse
deriving DecidableEq, Repr

/-- An argument on its own. -/
inductive Argument where
  | flag (flag : Flag)
  | inform
  | endOfFlags
  | word (text : String)
  | unknown
deriving DecidableEq, Repr

/-- The name of a long flag: without hyphens in front, and up to an equals sign. -/
def longName (cs : List Char) : String :=
  .ofList ((cs.dropWhile (· = '-')).takeWhile (· ≠ '='))

/-- What an argument is, if flags are allowed. -/
def Argument.ofString (s : String) : Argument :=
  match s.toList with
  | ['-', '-'] => .endOfFlags
  | '-' :: '-' :: cs =>
    let name := longName cs
    if name = "css-source" then .flag .cssSource
    else if name = "warnings-as-errors" then .flag .warningsAsErrors
    else if name = "help" || name = "version" then .inform
    else .unknown
  | '-' :: c :: _ => if c = 'h' || c = 'V' then .inform else .unknown
  | _ => .word s

/-- What the arguments of `check` ask for, after the given flags and files. -/
def readCheck (flags : List Flag) (files : List String) : List String → Invocation
  | [] => if flags.Nodup then .check flags files else .refuse
  | a :: rest =>
    match Argument.ofString a with
    | .flag f => readCheck (flags ++ [f]) files rest
    | .inform => .inform
    | .endOfFlags => if flags.Nodup then .check flags (files ++ rest) else .refuse
    | .word text => readCheck flags (files ++ [text]) rest
    | .unknown => .refuse

/-- What a command line asks for. -/
def Invocation.ofArguments : List String → Invocation
  | [] => .refuse
  | a :: rest =>
    if a = "check" then readCheck [] [] rest
    else if a = "help" then if rest = [] || rest = ["check"] || rest = ["help"] then .inform else .refuse
    else
      match Argument.ofString a with
      | .inform => .inform
      | _ => .refuse

end MapMarkup.CommandLine
