import JudgedLint.Failure
import JudgedLint.Lint.Job
import JudgedLint.Lint.Verdict
import JudgedLint.Lint.Result
import JudgedLint.Model.Retry

/-! Judging one job: the question is put to the model, again if that may help, and what comes of it
is a result or the end of the whole run. -/
namespace JudgedLint.Lint

open Model (CallError Client Catalog Request Response RetryOutcome RetryPolicy RetryRun)

structure Judge where
  client : Client
  defaultModel : String
  catalog : Catalog
  policy : RetryPolicy := {}
  /-- The random number that scales pauses. -/
  random : Float := 0.5
  maxTokens : Int := 1024

inductive Outcome where
  | judged (r : Result)
  /-- A failure that would recur on every job. -/
  | fatal (e : CallError)
  deriving DecidableEq, Repr

namespace Judge

/-- The model that judges a rule: its own, unless it names none. -/
def modelName (g : Judge) (r : Rule) : String :=
  match r.model with
  | some m => if m.isEmpty then g.defaultModel else m
  | none => g.defaultModel

def modelFor (g : Judge) (r : Rule) : Except Model.CatalogError String :=
  g.catalog.resolve g.client.provider (g.modelName r)

def request (g : Judge) (model : String) (j : Job) : Request :=
  ⟨model, systemPrompt, j.question, g.maxTokens, 0.0, .verdict⟩

/-- Whole milliseconds between two points in time, in seconds. -/
def milliseconds (start stop : Float) : Int := (Decimal.truncate? ((stop - start) * 1000.0)).getD 0

def result (j : Job) (v : Verdict) (durationMs : Int) : Result :=
  ⟨j.rule.id, j.rule.name, j.file, j.rule.severity, v.passed, v.message, v.line, durationMs, false,
    false⟩

/-- The result of a job that no model could judge. -/
def degraded (j : Job) (message : String) (durationMs : Int) : Result :=
  ⟨j.rule.id, j.rule.name, j.file, j.rule.severity, false, message, none, durationMs, false, true⟩

def loggerPart : String := "lint.judge"

def conclude (g : Judge) (j : Job) (durationMs : Int) :
    RetryOutcome Verdict → Except Failure (Outcome × List Log.Record)
  | .value v => .ok (.judged (result j v durationMs), [])
  | .rejected e =>
    let note := s!"Authentication failed for {g.client.credential}: {e.text}"
    .ok (.fatal (.authentication s!"{g.client.credential} is invalid or missing"),
      [Log.record .error loggerPart note])
  | .exhausted e =>
    if e.cls == .connection && g.client.isLocal then
      .ok (.fatal (.endpoint s!"Cannot connect to {g.client.credential}: {e.last.text}"), [])
    else
      let note := s!"Giving up on {e.label} after {e.attempts} attempt(s): {e.last.text}"
      .ok (.judged (degraded j s!"API error: {e.last.text}" durationMs),
        [Log.record .warning loggerPart note])
  | .noDelay e => .error (.delay e)

/-- One job judged on its own: how it ended, the requests made, the pauses and the notes. -/
structure Session where
  outcome : Except Failure Outcome
  requests : List Request
  pauses : List Float
  notes : List Log.Record

/-- The point in time that lies a pause behind another; a pause below zero is none. -/
def later (now pause : Float) : Float := if 0.0 < pause then now + pause else now

/-- The time that attempts take: each call's latency, and the pause behind it. -/
def elapsed (latency : Nat → Float) (attempts : Nat) (pauses : List Float) : Float :=
  let upTo := (pauses.zipIdx 1).foldl (fun now p => later (later now (latency p.2)) p.1) 0.0
  later upTo (latency attempts)

/-- Judges a job by the responses to its attempts, counted from one. For the pause behind each attempt
a random number is drawn. -/
def judgeDrawn (g : Judge) (draws : Nat → Float) (j : Job) (responses : Nat → Response) : Session :=
  match g.modelFor j.rule with
  | .error e => ⟨.error (.catalog e), [], [], []⟩
  | .ok model =>
    let run := Model.retryDrawn g.policy draws j.label fun k => Verdict.ofReply (responses k).reply
    let time := elapsed (fun k => (responses k).latency) run.attempts run.pauses
    let requests := List.replicate run.attempts (g.request model j)
    match g.conclude j (milliseconds 0.0 time) run.outcome with
    | .ok (outcome, notes) => ⟨.ok outcome, requests, run.pauses, run.notes ++ notes⟩
    | .error f => ⟨.error f, requests, run.pauses, run.notes⟩

/-- Judges a job with the same number for all pauses. -/
def judge (g : Judge) (j : Job) (responses : Nat → Response) : Session :=
  g.judgeDrawn (fun _ => g.random) j responses

end Judge
end JudgedLint.Lint
