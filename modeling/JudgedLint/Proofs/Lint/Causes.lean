import JudgedLint.Proofs.Lint.Outcome

/-! Why a result is degraded. Its message repeats what the last failure says, and falls back on nothing:
the class of the failure is not named even where the failure says nothing at all. Only failures of the
call itself can be without a word; those of reading an answer always have one. -/
namespace JudgedLint

open Model (CallError ErrorClass Reply Response RetryOutcome)
open Text (isBlankText)

theorem Text.isBlankText_append (a b : String) :
    isBlankText (a ++ b) = (isBlankText a && isBlankText b) := by
  rw [isBlankText, isBlankText, isBlankText, String.toList_append, List.all_append]

theorem Form.headline_not_blank (name : String) (errors : List Error) :
    isBlankText (headline name errors) = false := by
  have hone : isBlankText "1 validation error for " = false := by decide
  have hmany : isBlankText " validation errors for " = false := by decide
  unfold headline
  simp only [toString]
  split
  · simp only [Text.isBlankText_append, hone, Bool.false_and]
  · simp only [Text.isBlankText_append, hmany, Bool.and_false, Bool.false_and]

theorem Model.ErrorClass.name_not_blank (cls : ErrorClass) : isBlankText cls.name = false := by
  cases cls <;> decide

/-- What there is to say of a failure: its text, or its class if the text is blank. -/
def Model.CallError.cause (e : CallError) : String :=
  if isBlankText e.text then (ErrorClass.ofError e).name else e.text

theorem Model.CallError.cause_not_blank (e : CallError) : isBlankText e.cause = false := by
  unfold cause
  split
  · exact ErrorClass.name_not_blank _
  · next h => exact Bool.eq_false_iff.mpr h

theorem Model.CallError.text_eq_cause_iff (e : CallError) : e.text = e.cause ↔ isBlankText e.text = false := by
  constructor
  · intro h
    rw [h]
    exact e.cause_not_blank
  · intro h
    rw [cause, h, if_neg Bool.false_ne_true]

namespace Lint

theorem Verdict.Fails.of_blank {reply : Reply} {e : CallError} {cls : ErrorClass}
    (h : Verdict.Fails reply e cls) (hblank : isBlankText e.text = true) : reply = .error e := by
  cases h with
  | call e => rfl
  | noContent =>
    have hworded : isBlankText "AI returned no content" = false := by decide
    cases hworded.symm.trans hblank
  | @unreadable content errors =>
    cases (Form.headline_not_blank CallError.verdictName errors).symm.trans hblank
  | noMessage =>
    have hworded : isBlankText "AI returned empty content" = false := by decide
    cases hworded.symm.trans hblank

namespace Judge

variable {g : Judge} {j : Job} {draws : Nat → Float} {responses : Nat → Response} {r : Result}

theorem concluded_of_outcome {model : String} (hmodel : g.modelFor j.rule = .ok model) {o : Outcome}
    (h : (g.judgeDrawn draws j responses).outcome = .ok o) :
    let run := Model.retryDrawn g.policy draws j.label fun k => Verdict.ofReply (responses k).reply
    (∃ d notes, g.conclude j d run.outcome = .ok (o, notes)) ∧
      (g.judgeDrawn draws j responses).requests = List.replicate run.attempts (g.request model j) := by
  rw [judgeDrawn, hmodel] at h ⊢
  simp only at h ⊢
  split at h
  · next outcome notes hconclude =>
    cases h
    exact ⟨⟨_, notes, hconclude⟩, rfl⟩
  · cases h

theorem conclude_degraded {d : Int} {o : RetryOutcome Verdict} {notes : List Log.Record}
    (h : g.conclude j d o = .ok (.judged r, notes)) (herror : r.apiError = true) :
    ∃ ended, o = .exhausted ended ∧ r.message = "API error: " ++ ended.last.text := by
  cases o with
  | value v =>
    cases h
    cases herror
  | rejected e => cases h
  | noDelay e => cases h
  | exhausted ended =>
    rw [conclude] at h
    split at h
    · cases h
    · cases h
      exact ⟨ended, rfl, rfl⟩

/-- How a job comes to a degraded result: each of its `n` calls fails, the last with `e`, and what that
one says is in the message. -/
structure Degrades (g : Judge) (j : Job) (s : Session) (replies : Nat → Reply) (r : Result) (n : Nat)
    (e : CallError) : Prop where
  called : s.requests.length = n
  atLeast : 1 ≤ n
  atMost : (n : Int) ≤ max 1 g.policy.maxAttempts
  earlier : ∀ k, 1 ≤ k → k < n → ∃ e cls, Verdict.Fails (replies k) e cls ∧ cls ∈ g.policy.retryable
  last : Verdict.Fails (replies n) e (ErrorClass.ofError e)
  message : r.message = "API error: " ++ e.text

theorem exists_degrades (h : (g.judgeDrawn draws j responses).outcome = .ok (.judged r))
    (herror : r.apiError = true) :
    ∃ n e, g.Degrades j (g.judgeDrawn draws j responses) (fun k => (responses k).reply) r n e := by
  cases hmodel : g.modelFor j.rule with
  | error f =>
    rw [judgeDrawn, hmodel] at h
    cases h
  | ok model =>
    obtain ⟨⟨d, notes, hconclude⟩, hrequests⟩ := concluded_of_outcome hmodel h
    obtain ⟨n, h1, hbudget, hpauses, hattempts, hstops⟩ := Model.retryDrawn_ends g.policy draws j.label
      fun k => Verdict.ofReply (responses k).reply
    rw [hattempts] at hrequests
    obtain ⟨ended, hended, hmessage⟩ := conclude_degraded hconclude herror
    rw [hended] at hstops
    generalize hread : Verdict.ofReply (responses n).reply = read at hstops
    cases hstops with
    | @exhausted e hauth hfinal =>
      refine ⟨n, e, ?_, h1, ?_, ?_, Verdict.fails_of_ofReply hread, hmessage⟩
      · rw [hrequests, List.length_replicate]
      · rw [Model.RetryPolicy.budget] at hbudget
        omega
      · intro k hk hlt
        obtain ⟨seconds, note, hpause⟩ := hpauses k hk hlt
        obtain ⟨e', hreply, hretryable, _⟩ := Model.pause_cases hpause
        exact ⟨e', _, Verdict.fails_of_ofReply hreply, hretryable⟩

/-- The message of a degraded result repeats the last failure of the job. It says why the result is
degraded just if that failure says something; if not, it was the client that failed without a word. -/
theorem degraded_tells_cause (g : Judge) (draws : Nat → Float) (j : Job) (responses : Nat → Response)
    {r : Result} (h : (g.judgeDrawn draws j responses).outcome = .ok (.judged r))
    (herror : r.apiError = true) :
    ∃ n e, g.Degrades j (g.judgeDrawn draws j responses) (fun k => (responses k).reply) r n e ∧
      isBlankText e.cause = false ∧
      (r.message = "API error: " ++ e.cause ↔ isBlankText e.text = false) ∧
      (isBlankText e.text = true → (responses n).reply = .error e) := by
  obtain ⟨n, e, hdegrades⟩ := exists_degrades h herror
  refine ⟨n, e, hdegrades, e.cause_not_blank, ?_, hdegrades.last.of_blank⟩
  rw [hdegrades.message, ← e.text_eq_cause_iff]
  constructor
  · intro heq
    have hchars := congrArg String.toList heq
    simp only [String.toList_append, List.append_right_inj] at hchars
    exact String.toList_injective hchars
  · intro heq
    rw [← heq]

end Judge

namespace Sample

def silent : CallError := ⟨"TimeoutError", .timeout, "", none⟩

def busy : CallError := ⟨"RateLimitError", .plain, "slow down", some 429⟩

/-- A judge that asks only once gives up on any failure that is neither for the credential nor, with a
local endpoint, for the connection. -/
theorem onceOnly_degrades {e : CallError} (hauth : ErrorClass.ofError e ≠ .auth)
    (hconnection : ErrorClass.ofError e ≠ .connection) :
    ∃ r, (onceOnly.judgeDrawn (fun _ => 0.5) (job .error) fun _ => ⟨0.5, .error e⟩).outcome =
      .ok (.judged r) ∧ r.apiError = true ∧ r.message = "API error: " ++ e.text := by
  have hmodel : onceOnly.modelFor (job .error).rule = .ok "llama3" := by decide
  have hlast : onceOnly.policy.IsLast 1 (Verdict.ofReply (.error e)) := .inr (.inr (by decide))
  have hrun : Model.retryDrawn onceOnly.policy (fun _ => 0.5) (job .error).label
      (fun _ => Verdict.ofReply (.error e)) =
        ⟨.exhausted ⟨(job .error).label, ErrorClass.ofError e, 1, e⟩, 1, [], []⟩ := by
    have hend : Model.lastOutcome (job .error).label 1 (Verdict.ofReply (.error e)) =
        .exhausted ⟨(job .error).label, ErrorClass.ofError e, 1, e⟩ := if_neg hauth
    rw [Model.retryDrawn, Model.retryFrom_of_stop (Model.retryStep_of_isLast hlast), hend]
  have hreachable : (ErrorClass.ofError e == .connection && onceOnly.client.isLocal) = false := by
    rw [beq_eq_false_iff_ne.mpr hconnection, Bool.false_and]
  rw [Judge.judgeDrawn, hmodel]
  simp only [hrun, Judge.conclude, hreachable]
  exact ⟨_, rfl, rfl, rfl⟩

/-- The provider says why it does not answer, and the result repeats it. -/
theorem degraded_tells_cause_busy : ∃ r,
    (onceOnly.judgeDrawn (fun _ => 0.5) (job .error) fun _ => ⟨0.5, .error busy⟩).outcome = .ok (.judged r) ∧
      r.apiError = true ∧ ∃ n e, onceOnly.Degrades (job .error)
        (onceOnly.judgeDrawn (fun _ => 0.5) (job .error) fun _ => ⟨0.5, .error busy⟩) (fun _ => .error busy) r n e ∧
        r.message = "API error: " ++ e.cause ∧ e.cause = "slow down" := by
  obtain ⟨r, houtcome, herror, _⟩ := onceOnly_degrades (e := busy) (by decide) (by decide)
  obtain ⟨n, e, hdegrades, _, htold, _⟩ := Judge.degraded_tells_cause onceOnly (fun _ => 0.5) (job .error)
    (fun _ => ⟨0.5, .error busy⟩) houtcome herror
  have hlast := hdegrades.last.ofReply
  cases hlast
  exact ⟨r, houtcome, herror, n, busy, hdegrades, htold.mpr (by decide), by decide⟩

/-- A timeout without a word leaves a degraded result without a cause. -/
theorem silent_timeout_unexplained : ∃ r,
    (onceOnly.judgeDrawn (fun _ => 0.5) (job .error) fun _ => ⟨0.5, .error silent⟩).outcome = .ok (.judged r) ∧
      r.apiError = true ∧ r.message = "API error: " ∧ silent.cause = "timeout" := by
  obtain ⟨r, houtcome, herror, hmessage⟩ := onceOnly_degrades (e := silent) (by decide) (by decide)
  exact ⟨r, houtcome, herror, hmessage, by decide⟩

end Sample
end Lint
end JudgedLint
