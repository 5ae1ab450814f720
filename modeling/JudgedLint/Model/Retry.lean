import JudgedLint.Model.ErrorClass
import JudgedLint.Decimal.Fixed
import JudgedLint.Decimal.Reading
import JudgedLint.Log.Record

/-! Repeating failed calls: an attempt budget, pauses that grow, and the decision after each
failure. -/
namespace JudgedLint.Model

structure RetryPolicy where
  maxAttempts : Int := 3
  baseDelay : Float := 1.0
  backoffFactor : Float := 2.0
  /-- Pauses are scaled by a random factor between one half and three halves. -/
  jitter : Bool := false
  retryable : List ErrorClass := ErrorClass.retryable

namespace RetryPolicy

inductive DelayError where
  | zeroToNegative
  | tooLarge
  | largeExponent
  deriving DecidableEq, Repr

def DelayError.message : DelayError → String
  | .zeroToNegative => "0.0 cannot be raised to a negative power"
  | .tooLarge => "(34, 'Numerical result out of range')"
  | .largeExponent => "int too large to convert to float"

def isFinite (x : Float) : Bool := x.isFinite

def power (base : Float) (exponent : Int) : Except DelayError Float :=
  let power := Decimal.floatOfInt exponent
  if power.isInf then .error .largeExponent
  else if base == 0.0 && exponent < 0 then .error .zeroToNegative
  else
    let x := Float.pow base power
    if isFinite base && !isFinite x then .error .tooLarge else .ok x

/-- The pause before the attempt that follows `attempt`; `random` lies between zero and one. -/
def delay (p : RetryPolicy) (random : Float) (attempt : Int) : Except DelayError Float := do
  let growth ← power p.backoffFactor (attempt - 1)
  let d := p.baseDelay * growth
  return if p.jitter then d * (0.5 + random) else d

/-- How many attempts there are at most. -/
def budget (p : RetryPolicy) : Nat := max 1 p.maxAttempts.toNat

end RetryPolicy

inductive Decision where
  | reject (e : CallError)
  | giveUp (cls : ErrorClass)
  | again (cls : ErrorClass) (pause : Float)
  | noDelay (e : RetryPolicy.DelayError)

/-- The decision after the failure of an attempt, counted from one. -/
def decide (p : RetryPolicy) (random : Float) (attempt : Nat) (e : CallError) : Decision :=
  let cls := ErrorClass.ofError e
  if cls == .auth then
    .reject (if e.family == .authentication then e else CallError.authentication e.text)
  else if !p.retryable.contains cls || p.maxAttempts ≤ attempt then .giveUp cls
  else
    match p.delay random attempt with
    | .ok d => .again cls d
    | .error f => .noDelay f

def retryRecord (p : RetryPolicy) (label : String) (attempt : Nat) (cls : ErrorClass)
    (pause : Float) : Log.Record :=
  Log.record .warning "llm.retry" <|
    s!"{label}: {cls.name} (attempt {attempt}/{p.maxAttempts}), retrying in " ++
      s!"{Decimal.fixed 1 pause}s"

/-- All attempts failed, or the failure was not worth another. -/
structure Exhausted where
  label : String
  cls : ErrorClass
  attempts : Nat
  last : CallError
  deriving DecidableEq, Repr

def Exhausted.message (e : Exhausted) : String :=
  s!"'{e.label}' failed after {e.attempts} attempt(s) ({e.cls.name}): {e.last.text}"

inductive RetryOutcome (α : Type) where
  | value (a : α)
  | rejected (e : CallError)
  | exhausted (e : Exhausted)
  | noDelay (e : RetryPolicy.DelayError)

/-- What follows an attempt: the end, or another attempt after a pause. -/
inductive RetryStep (α : Type) where
  | stop (o : RetryOutcome α)
  | pause (seconds : Float) (note : Log.Record)

/-- What follows the result of an attempt, counted from one. -/
def retryStep {α : Type} (p : RetryPolicy) (random : Float) (label : String) (attempt : Nat) :
    Except CallError α → RetryStep α
  | .ok a => .stop (.value a)
  | .error e =>
    match decide p random attempt e with
    | .reject e => .stop (.rejected e)
    | .giveUp cls => .stop (.exhausted ⟨label, cls, attempt, e⟩)
    | .noDelay f => .stop (.noDelay f)
    | .again cls pause => .pause pause (retryRecord p label attempt cls pause)

/-- A retried call: how it ended, the number of attempts, the pauses and the notes before them. -/
structure RetryRun (α : Type) where
  outcome : RetryOutcome α
  attempts : Nat
  pauses : List Float
  notes : List Log.Record

/-- Another attempt is decided on only while one is left. -/
theorem lt_maxAttempts_of_again {p : RetryPolicy} {random : Float} {attempt : Nat} {e : CallError}
    {cls : ErrorClass} {pause : Float} (h : Model.decide p random attempt e = .again cls pause) :
    (attempt : Int) < p.maxAttempts := by
  refine Int.lt_of_not_ge fun hlast => ?_
  have hspent : (p.maxAttempts ≤ attempt) = True := eq_true hlast
  simp only [Model.decide, hspent, decide_true, Bool.or_true, if_true] at h
  split at h <;> cases h

theorem lt_maxAttempts_of_pause {α : Type} {p : RetryPolicy} {random : Float} {label : String}
    {attempt : Nat} {reply : Except CallError α} {seconds : Float} {note : Log.Record}
    (h : retryStep p random label attempt reply = .pause seconds note) :
    (attempt : Int) < p.maxAttempts := by
  cases reply with
  | ok a => simp [retryStep] at h
  | error e =>
    simp only [retryStep] at h
    split at h
    · cases h
    · cases h
    · cases h
    · exact lt_maxAttempts_of_again (by assumption)

/-- Attempts from the given one on, until one is followed by no pause. For the pause behind each
attempt a random factor is drawn. -/
def retryFrom {α : Type} (p : RetryPolicy) (draws : Nat → Float) (label : String)
    (call : Nat → Except CallError α) (attempt : Nat) : RetryRun α :=
  match h : retryStep p (draws attempt) label attempt (call attempt) with
  | .stop o => ⟨o, attempt, [], []⟩
  | .pause seconds note =>
    let run := retryFrom p draws label call (attempt + 1)
    { run with pauses := seconds :: run.pauses, notes := note :: run.notes }
termination_by p.maxAttempts.toNat - attempt
decreasing_by
  -- A pause follows only while attempts are left.
  have hlt := lt_maxAttempts_of_pause h
  omega

/-- Calls until an attempt succeeds or the decision is to stop. -/
def retryDrawn {α : Type} (p : RetryPolicy) (draws : Nat → Float) (label : String)
    (call : Nat → Except CallError α) : RetryRun α :=
  retryFrom p draws label call 1

/-- A retried call for whose pauses the same factor is drawn. -/
def retry {α : Type} (p : RetryPolicy) (random : Float) (label : String)
    (call : Nat → Except CallError α) : RetryRun α :=
  retryDrawn p (fun _ => random) label call

end JudgedLint.Model
