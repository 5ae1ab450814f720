import JudgedLint.Decimal.Fixed
import JudgedLint.Decimal.Reading
import JudgedLint.Lint.Matching
import JudgedLint.Lint.Result

/-! The report for a terminal: the results that did not pass, under their files, and the counts. -/
namespace JudgedLint.Report

open Lint (Result Severity Summary)

inductive Style where
  | bold
  | dim
  | red
  | green
  | yellow
  deriving DecidableEq, Repr

def Style.code : Style → String
  | .bold => "1"
  | .dim => "2"
  | .red => "31"
  | .green => "32"
  | .yellow => "33"

def escape : String := String.singleton (Char.ofNat 27)

def styled (color : Bool) (style : Style) (s : String) : String :=
  if color then escape ++ "[" ++ style.code ++ "m" ++ s ++ escape ++ "[0m" else s

def counted (n : Int) (word : String) : String := if n == 1 then s!"{n} {word}" else s!"{n} {word}s"

def failures (results : List Result) : List Result := results.filter (!·.passed)

/-- The files with failures, each once, in the order of their first failures. -/
def failingFiles (results : List Result) : List String :=
  Lint.firstSeen ((failures results).map (·.file))

def severityLabel (color : Bool) : Severity → String
  | .error => styled color .red "error"
  | .warning => styled color .yellow "warn"

def resultLine (color : Bool) (r : Result) : String :=
  let place := match r.line with
    | some n => s!"{n}: "
    | none => ""
  s!"    {severityLabel color r.severity}  {styled color .dim r.ruleId}  {place}{r.message}"

def fileLines (color : Bool) (results : List Result) (file : String) : List String :=
  styled color .bold s!"  {file}" ::
    ((failures results).filter (·.file == file)).map (resultLine color)

def problemsLine (color : Bool) (s : Summary) (files : Nat) : String :=
  let errors := if s.errors == 0 then [] else [styled color .red (counted s.errors "error")]
  let warnings :=
    if s.warnings == 0 then [] else [styled color .yellow (counted s.warnings "warning")]
  let parts := Text.join ", " (errors ++ warnings)
  "  " ++ counted (s.errors + s.warnings) "problem" ++ s!" ({parts}) in " ++ counted files "file"

def secondsOf (ms : Int) : Float := Decimal.floatOfDecimal (ms < 0) ms.natAbs (-3)

/-- Milliseconds as seconds with one decimal. -/
def secondsText (ms : Int) : String := Decimal.fixed 1 (secondsOf ms)

def summaryLine (color : Bool) (s : Summary) : String :=
  let files := if s.totalFiles == 1 then "file" else "files"
  let text := s!"{s.totalFiles} {files} checked, {s.cached} cached, {secondsText s.durationMs}s"
  "  " ++ styled color .dim text

def lines (color : Bool) (results : List Result) (s : Summary) : List String :=
  if results.isEmpty || (s.errors == 0 && s.warnings == 0) then
    [styled color .green "All rules passed", summaryLine color s]
  else
    let files := failingFiles results
    files.flatMap (fileLines color results) ++
      ["", problemsLine color s files.length, summaryLine color s]

def console (color : Bool) (results : List Result) (s : Summary) : String :=
  Text.join "\n" (lines color results s)

/-- The report as text, if the time it states is within the range of floats. -/
def console? (color : Bool) (results : List Result) (s : Summary) : Option String :=
  if (secondsOf s.durationMs).isInf then none else some (console color results s)

end JudgedLint.Report
