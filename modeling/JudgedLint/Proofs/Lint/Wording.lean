import JudgedLint.Proofs.Lint.Outcome

/-! What a model can do with words alone. A text that is no verdict fails in a class that goes by the kind
of the failure, before any word of its message is looked at. So no text rejects a credential or tells of
a lost connection, whatever it says, and no run is ended by one. -/
namespace JudgedLint.Lint

open Model (CallError ErrorClass Response RetryOutcome Stops)

/-- The class of the failure is one of two, whatever its message says, and whatever its name and its
status are. -/
def Unworded (e : CallError) : Prop :=
  (∀ name words status, ErrorClass.ofError ⟨name, e.family, words, status⟩ = .emptyResponse) ∨
    ∀ name words status, ErrorClass.ofError ⟨name, e.family, words, status⟩ = .parseError

theorem Unworded.ofError {e : CallError} (h : Unworded e) :
    ErrorClass.ofError e = .emptyResponse ∨ ErrorClass.ofError e = .parseError :=
  h.imp (fun h => h e.name e.text e.status) fun h => h e.name e.text e.status

/-- A text is a verdict, or fails in a class that no word of it decides. -/
inductive Spoken (content : String) : Prop where
  | verdict {v : Verdict} (h : Verdict.Given (.ok content) v)
  | failed {e : CallError} (h : Verdict.ofReply (.ok content) = .error e) (hu : Unworded e)

theorem unworded_of_ofReply {content : String} {e : CallError}
    (h : Verdict.ofReply (.ok content) = .error e) : Unworded e := by
  cases Verdict.fails_of_ofReply h with
  | noContent => exact .inl fun _ _ _ => rfl
  | unreadable => exact .inr fun _ _ _ => rfl
  | noMessage => exact .inl fun _ _ _ => rfl

theorem spoken (content : String) : Spoken content := by
  cases h : Verdict.ofReply (.ok content) with
  | ok v => exact .verdict (Verdict.given_of_ofReply h)
  | error e => exact .failed h (unworded_of_ofReply h)

namespace Judge

variable {g : Judge} {j : Job} {draws : Nat → Float}

theorem conclude_text (hd : g.policy.TimedBy draws) {n : Nat} (h1 : 1 ≤ n) {content : String}
    {o : RetryOutcome Verdict}
    (h : Stops g.policy (draws n) j.label n (Verdict.ofReply (.ok content)) o) (durationMs : Int) :
    ∃ r notes, g.conclude j durationMs o = .ok (.judged r, notes) ∧ r.Answers j := by
  generalize hread : Verdict.ofReply (.ok content) = read at h
  cases h with
  | value v => exact ⟨_, _, rfl, rfl, rfl, rfl, rfl, rfl⟩
  | rejected e' hauth =>
    rcases (unworded_of_ofReply hread).ofError with hcls | hcls
    · cases hcls.symm.trans hauth
    · cases hcls.symm.trans hauth
  | @exhausted e hauth hfinal =>
    have hreachable : (ErrorClass.ofError e == .connection && g.client.isLocal) = false := by
      rcases (unworded_of_ofReply hread).ofError with hcls | hcls
      · rw [hcls]
        rfl
      · rw [hcls]
        rfl
    rw [conclude, hreachable]
    exact ⟨_, _, rfl, rfl, rfl, rfl, rfl, rfl⟩
  | noDelay hleft hdelay =>
    obtain ⟨d, hd, _⟩ := hd n h1 hleft
    cases hd.symm.trans hdelay

theorem exists_judged_of_texts {model : String} (hmodel : g.modelFor j.rule = .ok model)
    (draws : Nat → Float) (hd : g.policy.TimedBy draws) (latency : Nat → Float)
    (texts : Nat → String) :
    let s := g.judgeDrawn draws j fun k => ⟨latency k, .ok (texts k)⟩
    ∃ n r, s.outcome = .ok (.judged r) ∧ r.Answers j ∧
      s.requests = List.replicate n (g.request model j) ∧ 1 ≤ n ∧ n ≤ g.policy.budget := by
  intro s
  obtain ⟨n, o, d, h1, hbudget, _, hstops, hjudge⟩ :=
    judgeDrawn_ends hmodel draws fun k => ⟨latency k, .ok (texts k)⟩
  obtain ⟨r, notes, hconclude, hanswers⟩ := conclude_text hd h1 hstops d
  obtain ⟨houtcome, hrequests⟩ := hjudge _ notes hconclude
  exact ⟨n, r, houtcome, hanswers, hrequests, h1, hbudget⟩

/-- Whatever a model says, judging a job that it can be asked about ends with a result, within the
budget. Each text is a verdict or fails in one of two classes, which no word decides. -/
theorem judge_texts_judged (g : Judge) (draws : Nat → Float) (j : Job) (latency : Nat → Float)
    (texts : Nat → String) {model : String} (hmodel : g.modelFor j.rule = .ok model)
    (hd : g.policy.TimedBy draws) :
    let s := g.judgeDrawn draws j fun k => ⟨latency k, .ok (texts k)⟩
    (∃ n r, s.outcome = .ok (.judged r) ∧ r.Answers j ∧
      s.requests = List.replicate n (g.request model j) ∧
      1 ≤ n ∧ (n : Int) ≤ max 1 g.policy.maxAttempts) ∧ ∀ k, Spoken (texts k) := by
  intro s
  obtain ⟨n, r, houtcome, hanswers, hrequests, h1, hbudget⟩ :=
    exists_judged_of_texts hmodel draws hd latency texts
  refine ⟨⟨n, r, houtcome, hanswers, hrequests, h1, ?_⟩, fun k => spoken (texts k)⟩
  simp only [Model.RetryPolicy.budget] at hbudget
  omega

end Judge

namespace Sample

/-- As the message of an error this would speak of a credential and of a connection. -/
def hostile : String := "401 Unauthorized: invalid api key (connection refused)"

theorem judge_texts_judged_hostile : onceOnly.modelFor (job .error).rule = .ok "llama3" ∧
    (onceOnly.policy.TimedBy fun _ => 0.5) ∧
    ErrorClass.ofError ⟨"ValidationError", .plain, hostile, none⟩ = .auth ∧
    (let s := onceOnly.judgeDrawn (fun _ => 0.5) (job .error) fun _ => ⟨0.5, .ok hostile⟩
    ∃ n r, s.outcome = .ok (.judged r) ∧ r.Answers (job .error) ∧
      s.requests = List.replicate n (onceOnly.request "llama3" (job .error)) ∧ 1 ≤ n ∧ (n : Int) ≤ 1) ∧
    Spoken hostile := by
  have hmodel : onceOnly.modelFor (job .error).rule = .ok "llama3" := by decide
  obtain ⟨hjudged, hspoken⟩ := Judge.judge_texts_judged onceOnly (fun _ => 0.5) (job .error)
    (fun _ => 0.5) (fun _ => hostile) hmodel onceOnly_timed
  exact ⟨hmodel, onceOnly_timed, by decide, hjudged, hspoken 1⟩

end Sample

/-- A run whose model only ever answers with texts is not ended by what it says: it fails before any job
is judged, or because its results cannot be saved. -/
theorem Run.Possible.failure_of_texts {σ : Type} {g : Setting σ} {store : Cache.Store}
    {paths : List String} {world : World σ} {r : Run σ} (h : Run.Possible g store paths world r)
    (hmodels : ∀ rule ∈ g.rules, ∃ model, g.judge.modelFor rule = .ok model)
    (hd : g.judge.policy.Timed g.judge.random) {texts : Job → Nat → String}
    (hs : r.history.Follows fun j k => .ok (texts j k)) {f : Failure} (hf : r.outcome = .error f) :
    (∃ history, Run.plan g store paths world.tree = .error (f, history)) ∨
      ∃ e, f = .ofSave e := by
  obtain ⟨hfails, _⟩ := h.fails hs hf
  cases hfails with
  | unplanned hp => exact .inl ⟨_, hp⟩
  | unsaved hp hj hsave hf => exact .inr ⟨_, hf⟩
  | @aborted p j hp hj hsettle =>
    obtain ⟨model, hmodel⟩ := hmodels j.rule ((Run.plan_planned hp).rule_mem (List.mem_of_mem_filter hj))
    obtain ⟨n, r, houtcome, _⟩ := Judge.exists_judged_of_texts hmodel (fun _ => g.judge.random) hd (fun _ => 0.0) (texts j)
    have hresult : g.judge.settle j (fun k => .ok (texts j k)) = .ok r.timeless := by
      rw [Judge.settle, Judge.outcome, Judge.judge, houtcome]
      rfl
    cases hresult.symm.trans hsettle

end JudgedLint.Lint
