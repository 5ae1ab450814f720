import JudgedLint.Lint.Rule

/-! Results of judging one file by one rule, their summary, and what a run's exit code says. -/
namespace JudgedLint.Lint

structure Result where
  ruleId : String
  ruleName : String
  file : String
  severity : Severity
  passed : Bool
  message : String
  line : Option Int
  durationMs : Int
  cached : Bool
  /-- The model could not be asked, or gave no usable answer. -/
  apiError : Bool
  deriving DecidableEq, Repr, Inhabited

namespace Result

open Form in
def reader : Form.Reader Result := record "LintResult" fun d =>
  Checked.apply (Checked.apply (Checked.apply (Checked.apply (Checked.apply (Checked.apply
    (Checked.apply (Checked.apply (Checked.apply
    ((required "rule_id" text d).map Result.mk)
    (required "rule_name" text d))
    (required "file" text d))
    (required "severity" (oneOf severities) d))
    (requiredEither "pass" "passed" truth d))
    (required "message" text d))
    (withDefault "line" none (optional integer) d))
    (withDefault "duration_ms" 0 integer d))
    (withDefault "cached" false truth d))
    (withDefault "api_error" false truth d)

def toJson (r : Result) : Json :=
  .obj [("rule_id", .str r.ruleId), ("rule_name", .str r.ruleName), ("file", .str r.file),
    ("severity", .str r.severity.name), ("pass", .bool r.passed), ("message", .str r.message),
    ("line", Json.ofOption .int r.line), ("duration_ms", .int r.durationMs),
    ("cached", .bool r.cached), ("api_error", .bool r.apiError)]

end Result

structure Summary where
  totalFiles : Int := 0
  totalRulesApplied : Int := 0
  passed : Int := 0
  errors : Int := 0
  warnings : Int := 0
  cached : Int := 0
  durationMs : Int := 0
  deriving DecidableEq, Repr, Inhabited

namespace Summary

def empty : Summary := {}

/-- Counts the results. One that did not pass counts by the severity of its rule. -/
def ofResults (results : List Result) (totalFiles : Int) (durationMs : Int) : Summary :=
  let failed (s : Severity) (r : Result) : Bool := !r.passed && r.severity == s
  { totalFiles, durationMs
    totalRulesApplied := results.length
    passed := results.countP (·.passed)
    errors := results.countP (failed .error)
    warnings := results.countP (failed .warning)
    cached := results.countP (·.cached) }

open Form in
def reader : Form.Reader Summary := record "LintSummary" fun d =>
  let count (name : String) : Checked Int := withDefault name 0 integer d
  Checked.apply (Checked.apply (Checked.apply (Checked.apply (Checked.apply (Checked.apply
    ((count "total_files").map Summary.mk)
    (count "total_rules_applied")) (count "passed")) (count "errors")) (count "warnings"))
    (count "cached")) (count "duration_ms")

def toJson (s : Summary) : Json :=
  .obj [("total_files", .int s.totalFiles), ("total_rules_applied", .int s.totalRulesApplied),
    ("passed", .int s.passed), ("errors", .int s.errors), ("warnings", .int s.warnings),
    ("cached", .int s.cached), ("duration_ms", .int s.durationMs)]

end Summary

/-- How a run ended, as the code a process exits with. -/
inductive ExitCode where
  | ok
  | lintFailure
  | fatal
  | interrupted
  deriving DecidableEq, Repr

def ExitCode.toNat : ExitCode → Nat
  | .ok => 0
  | .lintFailure => 1
  | .fatal => 2
  | .interrupted => 130

/-- A failed rule of error severity or a failed call fails the run. -/
def exitCode (results : List Result) (summary : Summary) : ExitCode :=
  if 0 < summary.errors || results.any (·.apiError) then .lintFailure else .ok

end JudgedLint.Lint
