import JudgedLint.Lint.Job
import JudgedLint.Lint.Result
import JudgedLint.Log.Record
import JudgedLint.Model.Client

/-! The history of a run, and what is read off it: the calls made, how many of them were in flight
at once, and the progress of the jobs. -/
namespace JudgedLint.Lint

inductive Event where
  | noted (r : Log.Record)
  | served (j : Job) (r : Result)
  | called (request : Model.Request)
  /-- The call of an attempt on a job, counted from one, came back. -/
  | answered (j : Job) (attempt : Nat) (reply : Model.Reply)
  | finished (j : Job) (r : Result)
  | reported (results : List Result) (summary : Summary)

abbrev History := List Event

namespace History

def records (h : History) : List Log.Record :=
  h.filterMap fun e => match e with
    | .noted r => some r
    | _ => none

def requests (h : History) : List Model.Request :=
  h.filterMap fun e => match e with
    | .called r => some r
    | _ => none

def reports (h : History) : Nat :=
  h.countP fun e => match e with
    | .reported _ _ => true
    | _ => false

def judged (h : History) : List (Job × Result) :=
  h.filterMap fun e => match e with
    | .finished j r => some (j, r)
    | _ => none

/-- Calls in flight, and the most there have been, after one more event. -/
def countCall (c : Nat × Nat) : Event → Nat × Nat
  | .called _ => (c.1 + 1, max c.2 (c.1 + 1))
  | .answered _ _ _ => (c.1 - 1, c.2)
  | _ => c

def peak (h : History) : Nat := (h.foldl countCall (0, 0)).2

end History

/-- How far a run is: jobs completed, jobs in all, the job just completed, and whether the cache
answered it. -/
structure Progress where
  completed : Nat
  total : Nat
  job : Job
  cached : Bool
  deriving DecidableEq, Repr

/-- The progress that an event makes, as job number `completed`. -/
def Event.progress? (total completed : Nat) : Event → Option Progress
  | .served j _ => some ⟨completed, total, j, true⟩
  | .finished j _ => some ⟨completed, total, j, false⟩
  | _ => none

/-- Every step of progress, numbered from `completed` on. -/
def History.progress (total : Nat) : Nat → History → List Progress
  | _, [] => []
  | completed, e :: rest =>
    match e.progress? total completed with
    | some p => p :: History.progress total (completed + 1) rest
    | none => History.progress total completed rest

end JudgedLint.Lint
