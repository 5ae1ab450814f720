import JudgedLint.Cache.Store
import JudgedLint.Lint.Fanout
import JudgedLint.Lint.Plan

/-! A whole run: the cache is loaded, the jobs are planned, those the cache does not answer are
judged, the results are stored and saved at once at the end, summed up and reported.

Whatever fails before the save leaves the cache as it was. -/
namespace JudgedLint.Lint

open Workspace (Tree)

structure Setting (σ : Type) where
  judge : Judge
  model : Model.Source σ
  rules : List Rule
  /-- How many jobs are judged at a time. -/
  slots : Nat
  runId : String
  /-- The moment at which a result is stored, by the count of results stored so far. -/
  stamp : Nat → Calendar.Moment

/-- What passes from run to run: the files, the time, the state of the model, and how many results
have been stored. -/
structure World (σ : Type) where
  tree : Tree
  now : Float
  source : σ
  stored : Nat

structure Completed where
  results : List Result
  summary : Summary
  code : ExitCode
  deriving DecidableEq, Repr

/-- How a run went: its end, all that happened, the number of jobs, and what it left behind. -/
structure Run (σ : Type) where
  outcome : Except Failure Completed
  history : History
  total : Nat
  world : World σ

namespace Run

variable {σ : Type}

def loggerPart : String := "lint.engine"

def storeAll (stamp : Nat → Calendar.Moment) (stored : Nat) (judged : List (Job × Result))
    (d : Cache.Document) : Cache.Document :=
  (judged.zipIdx (stored + 1)).foldl (fun d p =>
    let (j, r) := p.1
    d.store j.rule.id j.file j.fileHash j.promptHash r (stamp p.2)) d

def fileCount (matched : List (String × List Rule)) : Nat := matched.countP (!·.2.isEmpty)

def startText (runId : String) (files jobs cached : Nat) (slots : Nat) : String :=
  s!"Run {runId}: {files} files, {jobs} jobs ({cached} cached, {jobs - cached} to evaluate, " ++
    s!"concurrency={slots})"

def endText (runId : String) (s : Summary) (code : ExitCode) : String :=
  s!"Run {runId} finished in {s.durationMs} ms: {s.passed} passed, {s.errors} errors, " ++
    s!"{s.warnings} warnings (exit {code.toNat})"

def noted (runId : String) (rs : List Log.Record) : List Event :=
  rs.map fun r => .noted (r.within { run := some runId })

/-- What a run has found out before any job is judged: the cache as it was loaded, the number of
files that rules apply to, the jobs, and what happened so far. -/
structure Plan where
  store : Cache.Store
  files : Nat
  jobs : List Job
  history : History

namespace Plan

def served (p : Plan) : List (Job × Result) := hits p.store.document p.jobs

def unjudged (p : Plan) : List Job := misses p.store.document p.jobs

end Plan

def plan (g : Setting σ) (store : Cache.Store) (paths : List String) (t : Tree) :
    Except (Failure × History) Plan :=
  match store.load t with
  | .error e => .error (.ofCacheLoad e, [])
  | .ok (store, loaded) =>
    match matchFiles g.rules paths with
    | .error e => .error (.pattern e, noted g.runId loaded)
    | .ok matched =>
      let skipped := (unmatched t matched).map fun file =>
        Log.record .debug loggerPart s!"No rules match {file}"
      let history := noted g.runId (loaded ++ skipped)
      match jobsOf t matched with
      | .error f => .error (f, history)
      | .ok jobs =>
        let served := hits store.document jobs
        let files := fileCount matched
        let opening := Log.record .info loggerPart
          (startText g.runId files jobs.length served.length g.slots)
        .ok ⟨store, files, jobs,
          history ++ served.map (fun h => .served h.1 h.2) ++ noted g.runId [opening]⟩

def filled (g : Setting σ) (p : Plan) (stored : Nat) (judged : List (Job × Result)) :
    Cache.Store :=
  { p.store with document := storeAll g.stamp stored judged p.store.document }

/-- The results of a run: those from the cache, then those of the judging, both in the order of the
jobs. -/
def results (p : Plan) (fan : Fanout σ) : List Result :=
  p.served.map (·.2) ++ Fanout.inOrder fan.results p.unjudged.length

/-- The part of a run behind the judging: results are stored, saved, summed up and reported. A
failure of the judging ends the run before anything is saved. -/
def finish (g : Setting σ) (p : Plan) (world : World σ) (fan : Fanout σ) : Run σ :=
  let history := p.history ++ fan.history
  let judged := fan.history.judged
  let after : World σ := ⟨world.tree, fan.now, fan.source, world.stored + judged.length⟩
  match fan.failure with
  | some f => ⟨.error f, history, p.jobs.length, after⟩
  | none =>
    match (filled g p world.stored judged).save world.tree with
    | (.error e, tree) => ⟨.error (.ofSave e), history, p.jobs.length, { after with tree }⟩
    | (.ok saved, tree) =>
      let summary := Summary.ofResults (results p fan) p.files
        (Judge.milliseconds world.now fan.now)
      let code := exitCode (results p fan) summary
      let close := Log.record .info loggerPart (endText g.runId summary code)
      ⟨.ok ⟨results p fan, summary, code⟩,
        history ++ noted g.runId saved ++ [.reported (results p fan) summary] ++
          noted g.runId [close],
        p.jobs.length, { after with tree }⟩

def judging (g : Setting σ) (p : Plan) (world : World σ) : Fanout σ :=
  Fanout.run g.model g.judge { run := some g.runId } g.slots world.source world.now p.unjudged

/-- Runs the rules over the files at the given paths. -/
def run (g : Setting σ) (store : Cache.Store) (paths : List String) (world : World σ) : Run σ :=
  match plan g store paths world.tree with
  | .error (f, history) => ⟨.error f, history, 0, world⟩
  | .ok p => finish g p world (judging g p world)

end Run
end JudgedLint.Lint
