import JudgedLint.Calendar
import JudgedLint.Json.Writer
import JudgedLint.Lint.Result
import JudgedLint.Log.Record
import JudgedLint.Workspace.Tree

/-! The report for programs: a file that says how a run ended, with its results. -/
namespace JudgedLint.Report

open Lint (ExitCode Result Summary)
open Workspace (FileError Path Tree)

def defaultFile : String := ".ai-lint/report.json"

def document (now : Calendar.Moment) (results : List Result) (s : Summary) (code : Int)
    (error : Option String) : Json :=
  .obj <| [("mode", .str "report-only"), ("generated_at", .str (now.text "T")),
    ("exit_code", .int code), ("summary", s.toJson),
    ("results", .arr (results.map Result.toJson))] ++
    (error.map fun e => ("error", Json.str e)).toList

/-- Writes a report, making its directory if it is missing; one that was made stays when the report
is not written. Gives the absolute path and a note. -/
def write (t : Tree) (file : String) (report : Json) :
    Except FileError (String × Log.Record) × Tree :=
  match t.resolve (Path.ofText file) with
  | .error e => (.error e, t)
  | .ok path =>
    match t.makeDirs path.parent with
    | (.error e, t) => (.error e, t)
    | (.ok (), t) =>
      match t.write path (Text.utf8Encode (Json.render .block report)) with
      | .error e => (.error e, t)
      | .ok t =>
        let note := s!"Wrote JSON report to {path.text}"
        (.ok (path.text, Log.record .debug "reporting.json_report" note), t)

def writtenText (place : String) : String := s!"Report written: {place}"

end JudgedLint.Report
