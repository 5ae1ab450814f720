import JudgedLint.Lint.Run
import JudgedLint.Report.File

/-! Runs that print nothing but where their report is. A failure of the run is written into the
report. -/
namespace JudgedLint.Report

open Lint (ExitCode Setting Summary World)

/-- How an unattended run went: the exit code, the lines printed, and all that happened. -/
structure Unattended (σ : Type) where
  outcome : Except Failure ExitCode
  printed : List String
  history : Lint.History
  world : World σ

namespace Unattended

variable {σ : Type}

def close (now : Calendar.Moment) (file : String) (context : Log.Context)
    (results : List Lint.Result) (s : Summary) (code : ExitCode) (error : Option String)
    (history : Lint.History) (world : World σ) : Unattended σ :=
  let (written, tree) := write world.tree file (document now results s code.toNat error)
  let world := { world with tree }
  match written with
  | .error e => ⟨.error (.file e), [], history, world⟩
  | .ok (place, note) =>
    ⟨.ok code, [writtenText place], history ++ [.noted (note.within context)], world⟩

/-- Runs the rules and leaves a report behind. -/
def run (now : Calendar.Moment) (file : String) (g : Setting σ) (store : Cache.Store)
    (paths : List String) (world : World σ) : Unattended σ :=
  if paths.isEmpty then close now file {} [] .empty .ok none [] world
  else
    let context : Log.Context := { run := some g.runId }
    let r := Lint.Run.run g store paths world
    match r.outcome with
    | .ok done => close now file context done.results done.summary done.code none r.history r.world
    | .error f =>
      let note := { Log.record .debug "lint.report_only" "Report-only run failed" with
        exception := some f.shown }
      close now file context [] .empty .fatal (some f.messageOrKind)
        (r.history ++ [.noted (note.within context)]) r.world

end Unattended
end JudgedLint.Report
