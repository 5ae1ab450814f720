import JudgedLint.Lint.Judge
import JudgedLint.Proofs.Lint.Result
import JudgedLint.Proofs.Model.Retry

/-! What judging a job comes to for the run: a result, or the failure that ends the run. Which one
depends on the replies to its attempts alone; how long the calls take shows in the duration only. -/
namespace JudgedLint.Lint

open Model (CallError Reply Response RetryOutcome Pauses Stops)

/-- The result without the time it took. -/
def Result.timeless (r : Result) : Result := { r with durationMs := 0 }

/-- A result that a job was judged with: it names the job's rule and file, and is not from the
cache. -/
structure Result.Answers (r : Result) (j : Job) : Prop where
  ruleId : r.ruleId = j.rule.id
  ruleName : r.ruleName = j.rule.name
  file : r.file = j.file
  severity : r.severity = j.rule.severity
  fresh : r.cached = false

theorem Verdict.ofReply_line {reply : Reply} {v : Verdict} (h : Verdict.ofReply reply = .ok v) :
    ∀ n ∈ v.line, Json.IsShort n := by
  obtain ⟨content, _, h⟩ := bind_eq_ok.mp h
  simp only [ofContent] at h
  split at h
  · cases h
  · split at h
    · cases h
    · next v' hv =>
      split at h
      · cases h
      · cases h
        simp only [ofText] at hv
        split at hv
        · cases hv
        · next ms hparse =>
          obtain ⟨_, hv⟩ := Form.record_eq_ok.mp hv
          simp only [Form.apply_eq_ok, map_eq_ok] at hv
          obtain ⟨_, _, ⟨_, _, ⟨_, _, rfl⟩, _, rfl⟩, hline, rfl⟩ := hv
          rcases Form.withDefault_ofJson hline with rfl | ⟨j, hj, hline⟩
          · simp
          · cases Json.parse_proper hparse with
            | obj _ hms => exact Form.optional_integer_isShort (hms _ hj) hline
        · cases hv

/-- An outcome as the run takes it: a fatal one ends the run with its error. -/
def Outcome.settled : Outcome → Except Failure Result
  | .judged r => .ok r
  | .fatal e => .error (.call e)

namespace Judge

variable {g : Judge} {j : Job}

def ending (g : Judge) (j : Job) (durationMs : Int) (o : RetryOutcome Verdict) :
    Except Failure Result :=
  (g.conclude j durationMs o).bind (·.1.settled)

def outcome (g : Judge) (j : Job) (replies : Nat → Reply) : Except Failure Outcome :=
  (g.judge j fun k => ⟨0.0, replies k⟩).outcome

/-- What judging a job by replies comes to, apart from the time it takes. -/
def settle (g : Judge) (j : Job) (replies : Nat → Reply) : Except Failure Result :=
  ((g.outcome j replies).bind Outcome.settled).map Result.timeless

/-- Why judging a job ends the run: its outcome is fatal, or a pause in front of another attempt is
beyond the range of floats. -/
inductive Aborts (g : Judge) (j : Job) (replies : Nat → Reply) : Failure → Prop where
  | fatal {e : CallError} (h : g.outcome j replies = .ok (.fatal e)) : Aborts g j replies (.call e)
  | delay {e : Model.RetryPolicy.DelayError} (h : g.outcome j replies = .error (.delay e)) :
      Aborts g j replies (.delay e)

theorem ending_timeless (d d' : Int) (o : RetryOutcome Verdict) :
    (g.ending j d o).map Result.timeless = (g.ending j d' o).map Result.timeless := by
  cases o with
  | value v => rfl
  | rejected e => rfl
  | noDelay e => rfl
  | exhausted e =>
    simp only [ending, conclude]
    split <;> rfl

theorem ending_answers {d : Int} {o : RetryOutcome Verdict} {r : Result}
    (h : g.ending j d o = .ok r) : r.Answers j := by
  cases o with
  | value v =>
    cases h
    exact ⟨rfl, rfl, rfl, rfl, rfl⟩
  | rejected e => cases h
  | noDelay e => cases h
  | exhausted e =>
    simp only [ending, conclude] at h
    split at h
    · cases h
    · cases h
      exact ⟨rfl, rfl, rfl, rfl, rfl⟩

theorem milliseconds_isShort (start stop : Float) : Json.IsShort (milliseconds start stop) := by
  unfold milliseconds
  cases htime : Decimal.truncate? ((stop - start) * 1000.0) with
  | none => exact Json.isShort_of_lt (k := 1) (by decide) (by decide) (by decide)
  | some n => exact Decimal.truncate?_isShort htime

theorem ending_short {attempt : Nat} {reply : Reply} {start stop : Float} {o : RetryOutcome Verdict}
    {r : Result} (hs : Model.retryStep g.policy g.random j.label attempt (Verdict.ofReply reply) = .stop o)
    (h : g.ending j (milliseconds start stop) o = .ok r) : r.Short := by
  have hduration := milliseconds_isShort start stop
  cases o with
  | value v =>
    cases h
    exact ⟨Verdict.ofReply_line (Model.reply_of_stop_value hs), hduration⟩
  | rejected e => cases h
  | noDelay e => cases h
  | exhausted e =>
    simp only [ending, conclude] at h
    split at h
    · cases h
    · cases h
      exact ⟨by simp [degraded], hduration⟩

/-- With its model known a job is asked about until an attempt is followed by no pause, and what ends
the attempts is concluded. -/
theorem judgeDrawn_ends {model : String} (hm : g.modelFor j.rule = .ok model) (draws : Nat → Float)
    (responses : Nat → Response) : ∃ n o d, 1 ≤ n ∧ n ≤ g.policy.budget ∧
      Pauses g.policy draws j.label (fun k => Verdict.ofReply (responses k).reply) 1 n ∧
      Stops g.policy (draws n) j.label n (Verdict.ofReply (responses n).reply) o ∧
      ∀ outcome notes, g.conclude j d o = .ok (outcome, notes) →
        (g.judgeDrawn draws j responses).outcome = .ok outcome ∧
        (g.judgeDrawn draws j responses).requests = List.replicate n (g.request model j) := by
  obtain ⟨n, h1, hbudget, hpauses, hattempts, hstops⟩ :=
    Model.retryDrawn_ends g.policy draws j.label fun k => Verdict.ofReply (responses k).reply
  generalize hrun : (Model.retryDrawn g.policy draws j.label fun k =>
    Verdict.ofReply (responses k).reply) = run at hattempts hstops
  subst hattempts
  refine ⟨run.attempts, run.outcome,
    milliseconds 0.0 (elapsed (fun k => (responses k).latency) run.attempts run.pauses), h1, hbudget,
    hpauses, hstops, fun outcome notes hconclude => ?_⟩
  rw [judgeDrawn, hm]
  simp only [hrun, hconclude]
  exact ⟨trivial, trivial⟩

theorem judge_outcome_settled {model : String} (hm : g.modelFor j.rule = .ok model)
    (responses : Nat → Response) :
    ∃ d, (g.judge j responses).outcome.bind Outcome.settled = g.ending j d
      (Model.retry g.policy g.random j.label fun k => Verdict.ofReply (responses k).reply).outcome := by
  simp only [judge, judgeDrawn, Model.retry, hm, ending]
  split
  · next heq => exact ⟨_, by rw [heq]; rfl⟩
  · next heq => exact ⟨_, by rw [heq]; rfl⟩

/-- Latencies do not matter for what judging a job comes to. -/
theorem settle_eq (responses : Nat → Response) :
    g.settle j (fun k => (responses k).reply) =
      ((g.judge j responses).outcome.bind Outcome.settled).map Result.timeless := by
  cases hm : g.modelFor j.rule with
  | error e => simp only [settle, outcome, judge, judgeDrawn, hm]
  | ok model =>
    obtain ⟨d, hd⟩ := judge_outcome_settled hm fun k => ⟨0.0, (responses k).reply⟩
    obtain ⟨d', hd'⟩ := judge_outcome_settled hm responses
    rw [settle, outcome, hd, hd']
    exact ending_timeless d d' _

theorem settle_of_unknown {e : Model.CatalogError} (replies : Nat → Reply)
    (h : g.modelFor j.rule = .error e) : g.settle j replies = .error (.catalog e) := by
  simp only [settle, outcome, judge, judgeDrawn, h]
  rfl

/-- The first attempt that is followed by no pause decides what comes of the job. -/
theorem settle_of_stop {model : String} {last : Nat} {o : RetryOutcome Verdict} {replies : Nat → Reply}
    (hm : g.modelFor j.rule = .ok model) (h1 : 1 ≤ last)
    (hp : Pauses g.policy (fun _ => g.random) j.label (fun k => Verdict.ofReply (replies k)) 1 last)
    (hs : Model.retryStep g.policy g.random j.label last (Verdict.ofReply (replies last)) = .stop o)
    (d : Int) : g.settle j replies = (g.ending j d o).map Result.timeless := by
  obtain ⟨d', hd'⟩ := judge_outcome_settled hm fun k => ⟨0.0, replies k⟩
  rw [settle, outcome, hd', Model.retry_outcome_of_stop h1 hp hs]
  exact ending_timeless d' d o

theorem conclude_eq_error {d : Int} {o : RetryOutcome Verdict} {f : Failure}
    (h : g.conclude j d o = .error f) : ∃ e, f = .delay e := by
  cases o with
  | value v => cases h
  | rejected e => cases h
  | exhausted e =>
    simp only [conclude] at h
    split at h <;> cases h
  | noDelay e =>
    cases h
    exact ⟨e, rfl⟩

theorem outcome_eq_error {model : String} {replies : Nat → Reply} {f : Failure}
    (hm : g.modelFor j.rule = .ok model) (h : g.outcome j replies = .error f) : ∃ e, f = .delay e := by
  simp only [outcome, judge, judgeDrawn, hm] at h
  split at h
  · cases h
  · next hconclude =>
    cases h
    exact conclude_eq_error hconclude

/-- With its model known a job comes to a result, or judging it ends the run. -/
theorem settle_eq_error_iff {model : String} {replies : Nat → Reply} {f : Failure}
    (hm : g.modelFor j.rule = .ok model) : g.settle j replies = .error f ↔ g.Aborts j replies f := by
  constructor
  · intro h
    cases ho : g.outcome j replies with
    | error f' =>
      rw [settle, ho] at h
      cases h
      obtain ⟨e, rfl⟩ := outcome_eq_error hm ho
      exact .delay ho
    | ok o =>
      rw [settle, ho] at h
      cases o with
      | judged r => cases h
      | fatal e =>
        cases h
        exact .fatal ho
  · intro h
    cases h with
    | fatal ho => rw [settle, ho]; rfl
    | delay ho => rw [settle, ho]; rfl

end Judge
end JudgedLint.Lint
