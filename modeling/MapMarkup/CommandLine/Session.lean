import MapMarkup.Checking
import MapMarkup.Diagnostic.Collector
import MapMarkup.Report

/-!
# Checking files

The files are checked in order by one and the same checker, whose collector is emptied after each of them. The exit
status becomes 2 at a file that cannot be read, and stays so; a file that breaks a rule makes it 1 if it was 0. The
error at which the reading of a file stops is shown before what was found up to there, and if nothing was found, nothing
is shown. How reports are shown is left open: a session is given a `Rendering`.
-/

namespace MapMarkup.CommandLine

inductive Flag where
  /-- The documents are stylesheets. -/
  | cssSource
  /-- Warnings count as errors for the exit status. -/
  | warningsAsErrors
deriving DecidableEq, Repr

/-- The exit status when a file breaks a rule. -/
def invalid : Nat := 1

/-- The exit status when a file is not text or not well-formed. -/
def unreadable : Nat := 2

/-- A file by its name, with its text, or with the reason why it cannot be read. -/
structure File where
  name : String
  text : Except String (List Char)

/-- How reports on a file are shown, given the name and the text of the file. -/
abbrev Rendering (ω : Type) : Type :=
  String → List Char → List Report → ω

/-- What is printed at once. -/
inductive Printed (ω : Type) where
  | unreadable (name reason : String)
  | reports (shown : ω)
deriving DecidableEq, Repr

/-- The text that is printed, if reports are shown as text. -/
def Printed.text : Printed String → String
  | unreadable name reason => name ++ ": " ++ reason ++ "\n"
  | reports shown => shown

/-- What checking some files comes to: the exit status, and what is printed, in order. -/
structure Result (ω : Type) where
  status : Nat
  printed : List (Printed ω)
deriving DecidableEq, Repr

/-- What goes from file to file: the checker, the exit status, and what has been printed so far. -/
structure Session (ω : Type) where
  checker : Checker Collector
  status : Nat := 0
  printed : List (Printed ω) := []

namespace Session

variable {ω : Type} (render : Rendering ω)

/-- Before the first file. -/
def start (flags : List Flag) : Session ω :=
  { checker := { state := { sourceIsCss := flags.contains .cssSource }, sink := {} } }

/-- Prints reports on a file. -/
def print (s : Session ω) (name : String) (source : List Char) (reports : List Report) : Session ω :=
  { s with printed := s.printed ++ [.reports (render name source reports)] }

/-- Reads a document; the error at which this stops is printed at once. -/
def read (s : Session ω) (name : String) (source : List Char) : Session ω :=
  let (checker, error) : Checker Collector × Option Xml.ReadError :=
    Id.run (s.checker.read CssParser.none source (some name))
  match error with
  | none => { s with checker }
  | some e => { s with checker, status := unreadable }.print render name source [e.report source]

/-- Prints what has been found in a document, and leaves the checker ready for the next one. -/
def conclude (s : Session ω) (warningsAsErrors : Bool) (name : String) (source : List Char) : Session ω :=
  let found := s.checker.sink
  let failed := found.hasErrors || (warningsAsErrors && found.diagnostics ≠ [])
  let emptied := { s with checker := { s.checker with sink := found.clear } }
  let concluded :=
    if found.diagnostics = [] then emptied
    else emptied.print render name source (found.diagnostics.map (Diagnostic.report source))
  if failed && concluded.status = 0 then { concluded with status := invalid } else concluded

/-- Checks a file. -/
def checkFile (warningsAsErrors : Bool) (s : Session ω) (file : File) : Session ω :=
  match file.text with
  | .error reason => { s with status := unreadable, printed := s.printed ++ [.unreadable file.name reason] }
  | .ok source => (s.read render file.name source).conclude render warningsAsErrors file.name source

end Session

/-- Checks files, one after the other, as the flags say. -/
def check {ω : Type} (render : Rendering ω) (flags : List Flag) (files : List File) : Result ω :=
  let s := files.foldl (Session.checkFile render (flags.contains .warningsAsErrors)) (Session.start flags)
  ⟨s.status, s.printed⟩

end MapMarkup.CommandLine
