import JudgedLint.Lint.Event
import JudgedLint.Lint.Judge

/-! Judging many jobs at a time.

A job that is started takes a free slot and keeps it until it is over, also while it waits for an
answer or between two attempts; then it gives the slot back. One step starts a waiting job or lets a
started one go on. By default jobs start in order, as soon as a slot is free; when no job can start,
the job that wakes first goes on. A failure that would recur ends everything. -/
namespace JudgedLint.Lint

open Model (Reply Response Source)

/-- What a sleeping job waits for. -/
inductive Waiting where
  | answer (r : Reply)
  /-- The end of the pause in front of an attempt. -/
  | pause

structure Active where
  /-- The place among the jobs to be judged. -/
  index : Nat
  job : Job
  model : String
  started : Float

/-- A started job between two of its steps. -/
structure Sleeper extends Active where
  /-- The attempt that it is about, counted from one. -/
  attempt : Nat
  /-- Whether no time has to pass before it goes on. -/
  ready : Bool
  wake : Float
  waiting : Waiting

structure Fanout (σ : Type) where
  /-- Jobs that have not started, with their places. -/
  queue : List (Nat × Job)
  /-- Started jobs, in the order in which they fell asleep. -/
  asleep : List Sleeper
  /-- How many slots no job holds. -/
  free : Nat
  now : Float
  source : σ
  /-- Results by the places of their jobs, in the order in which they came in. -/
  results : List (Nat × Result)
  history : History
  failure : Option Failure

/-- What happens next, of all that can. -/
inductive Move where
  | start (place : Nat)
  | wake (place : Nat)
  deriving DecidableEq, Repr

namespace Fanout

variable {σ : Type}

def start (slots : Nat) (source : σ) (now : Float) (jobs : List Job) : Fanout σ :=
  ⟨jobs.zipIdx.map fun j => (j.2, j.1), [], slots, now, source, [], [], none⟩

def emit (es : List Event) (s : Fanout σ) : Fanout σ := { s with history := s.history ++ es }

/-- A failure after the first changes nothing. -/
def fail (f : Failure) (s : Fanout σ) : Fanout σ := { s with failure := s.failure.or (some f) }

/-- A job that is over gives its slot back. -/
def release (s : Fanout σ) : Fanout σ := { s with free := s.free + 1 }

def noted (context : Log.Context) (j : Job) (rs : List Log.Record) : List Event :=
  rs.map fun r => .noted (r.within { context with rule := some j.rule.id, file := some j.file })

def sleep (a : Active) (attempt : Nat) (pause : Float) (waiting : Waiting) (s : Fanout σ) :
    Fanout σ :=
  let z : Sleeper := ⟨a, attempt, !(0.0 < pause), Judge.later s.now pause, waiting⟩
  { s with asleep := s.asleep ++ [z] }

/-- The end of a job: its result, or the failure that ends the run. -/
def conclude (g : Judge) (context : Log.Context) (a : Active) (o : Model.RetryOutcome Verdict)
    (s : Fanout σ) : Fanout σ :=
  let s := s.release
  match g.conclude a.job (Judge.milliseconds a.started s.now) o with
  | .error f => s.fail f
  | .ok (.fatal e, notes) => (s.emit (noted context a.job notes)).fail (.call e)
  | .ok (.judged r, notes) =>
    { s.emit (noted context a.job notes ++ [.finished a.job r]) with
      results := s.results ++ [(a.index, r)] }

def react (g : Judge) (context : Log.Context) (a : Active) (attempt : Nat) (reply : Reply)
    (s : Fanout σ) : Fanout σ :=
  let s := s.emit [.answered a.job attempt reply]
  match Model.retryStep g.policy g.random a.job.label attempt (Verdict.ofReply reply) with
  | .stop o => s.conclude g context a o
  | .pause seconds note =>
    (s.emit (noted context a.job [note])).sleep a (attempt + 1) seconds .pause

/-- An attempt: the model is called, and the job sleeps until the answer is there. -/
def attempt (m : Source σ) (g : Judge) (a : Active) (number : Nat) (s : Fanout σ) : Fanout σ :=
  let request := g.request a.model a.job
  let (response, source) := m.ask s.source request
  { s.emit [.called request] with source }.sleep a number response.latency (.answer response.reply)

/-- Starts a job. A model that the catalog does not know ends the run. -/
def begin (m : Source σ) (g : Judge) (index : Nat) (j : Job) (s : Fanout σ) : Fanout σ :=
  match g.modelFor j.rule with
  | .error e => s.release.fail (.catalog e)
  | .ok model => s.attempt m g ⟨index, j, model, s.now⟩ 1

def wake (m : Source σ) (g : Judge) (context : Log.Context) (z : Sleeper) (s : Fanout σ) :
    Fanout σ :=
  match z.waiting with
  | .pause => s.attempt m g z.toActive z.attempt
  | .answer reply => s.react g context z.toActive z.attempt reply

/-- A step at a point in time, if it is possible: a job starts only if a slot is free, and takes it. -/
def step (m : Source σ) (g : Judge) (context : Log.Context) (now : Float) (move : Move)
    (s : Fanout σ) : Option (Fanout σ) :=
  match move with
  | .start place =>
    if 0 < s.free then
      s.queue[place]?.map fun q =>
        { s with queue := s.queue.eraseIdx place, free := s.free - 1, now }.begin m g q.1 q.2
    else none
  | .wake place =>
    s.asleep[place]?.map fun z =>
      { s with asleep := s.asleep.eraseIdx place, now }.wake m g context z

/-- The place of the sleeper that wakes first; of several the one that fell asleep first. -/
def earliest : List Sleeper → Nat
  | [] => 0
  | z :: rest =>
    let place := earliest rest
    match rest[place]? with
    | some other => if other.wake < z.wake then place + 1 else 0
    | none => 0

def wakeAt (place : Nat) (s : Fanout σ) : Option (Move × Float) :=
  s.asleep[place]?.map fun z => (.wake place, z.wake)

/-- The move that comes next, and when: a job for which no time has to pass goes on, else the first
waiting job starts if a slot is free, else the earliest sleeper goes on. Nothing follows a
failure. -/
def choose (s : Fanout σ) : Option (Move × Float) :=
  if s.failure.isSome then none
  else if s.asleep.getLast?.any (·.ready) then s.wakeAt (s.asleep.length - 1)
  else if !s.queue.isEmpty && 0 < s.free then some (.start 0, s.now)
  else s.wakeAt (earliest s.asleep)

def next? (m : Source σ) (g : Judge) (context : Log.Context) (s : Fanout σ) : Option (Fanout σ) :=
  s.choose.bind fun c => s.step m g context c.2 c.1

def runFor (m : Source σ) (g : Judge) (context : Log.Context) : Nat → Fanout σ → Fanout σ
  | 0, s => s
  | fuel + 1, s =>
    match s.next? m g context with
    | some s => runFor m g context fuel s
    | none => s

/-- Steps that suffice: every job starts once, and wakes at most twice for each attempt. -/
def steps (g : Judge) (jobs : List Job) : Nat := jobs.length * (2 * g.policy.budget + 1)

/-- Judges all jobs, at most `slots` at a time. -/
def run (m : Source σ) (g : Judge) (context : Log.Context) (slots : Nat) (source : σ) (now : Float)
    (jobs : List Job) : Fanout σ :=
  runFor m g context (steps g jobs) (start slots source now jobs)

def inOrder (results : List (Nat × Result)) (count : Nat) : List Result :=
  (List.range count).filterMap fun i => results.lookup i

end Fanout
end JudgedLint.Lint
