import JudgedLint.Proofs.Lint.Judging
import JudgedLint.Proofs.Lint.Completeness

/-! What judging one job ends in. A reply gives a verdict or fails in one of nine classes; failures
that another call may help against are repeated; and the reply that is not followed by another call
decides between a verdict, a rejected credential, an unreachable endpoint and a degraded result. -/
namespace JudgedLint.Lint

open Model (CallError ErrorClass Reply Response RetryOutcome RetryPolicy Pauses Stops)

namespace Verdict

/-- A reply that is a verdict with something to say. -/
inductive Given : Reply → Verdict → Prop where
  | content {content : String} {v : Verdict} (hcontent : Text.isBlankText content = false)
      (hread : ofText (stripFences content) = .ok v) (hmessage : Text.isBlankText v.message = false) :
      Given (.ok content) v

/-- A reply that is no verdict, with its error and the class of the failure. -/
inductive Fails : Reply → CallError → ErrorClass → Prop where
  | call (e : CallError) : Fails (.error e) e (ErrorClass.ofError e)
  | noContent {content : String} (hcontent : Text.isBlankText content = true) :
      Fails (.ok content) (.emptyResponse "AI returned no content") .emptyResponse
  | unreadable {content : String} {errors : List Form.Error}
      (hcontent : Text.isBlankText content = false)
      (hread : ofText (stripFences content) = .error errors) :
      Fails (.ok content) (.verdict errors) .parseError
  | noMessage {content : String} {v : Verdict} (hcontent : Text.isBlankText content = false)
      (hread : ofText (stripFences content) = .ok v) (hmessage : Text.isBlankText v.message = true) :
      Fails (.ok content) (.emptyResponse "AI returned empty content") .emptyResponse

variable {reply : Reply} {v : Verdict} {e : CallError} {cls : ErrorClass}

theorem Given.ofReply (h : Given reply v) : ofReply reply = .ok v := by
  cases h with
  | content hcontent hread hmessage =>
    simp [Verdict.ofReply, ofContent, Except.bind, hcontent, hread, hmessage]

theorem Fails.ofReply (h : Fails reply e cls) : ofReply reply = .error e := by
  cases h with
  | call e => rfl
  | noContent hcontent => simp [Verdict.ofReply, ofContent, Except.bind, hcontent]
  | unreadable hcontent hread => simp [Verdict.ofReply, ofContent, Except.bind, hcontent, hread]
  | noMessage hcontent hread hmessage =>
    simp [Verdict.ofReply, ofContent, Except.bind, hcontent, hread, hmessage]

theorem Fails.ofError (h : Fails reply e cls) : ErrorClass.ofError e = cls := by
  cases h <;> rfl

theorem given_or_fails (reply : Reply) :
    (∃ v, Given reply v) ∨ ∃ e, Fails reply e (ErrorClass.ofError e) := by
  cases reply with
  | error e => exact .inr ⟨e, .call e⟩
  | ok content =>
    cases hcontent : Text.isBlankText content with
    | true => exact .inr ⟨_, .noContent hcontent⟩
    | false =>
      cases hread : ofText (stripFences content) with
      | error errors => exact .inr ⟨_, .unreadable hcontent hread⟩
      | ok v =>
        cases hmessage : Text.isBlankText v.message with
        | true => exact .inr ⟨_, .noMessage hcontent hread hmessage⟩
        | false => exact .inl ⟨v, .content hcontent hread hmessage⟩

theorem given_of_ofReply (h : Verdict.ofReply reply = .ok v) : Given reply v := by
  rcases given_or_fails reply with ⟨v', hv⟩ | ⟨e, he⟩
  · cases hv.ofReply.symm.trans h
    exact hv
  · cases he.ofReply.symm.trans h

theorem fails_of_ofReply (h : Verdict.ofReply reply = .error e) :
    Fails reply e (ErrorClass.ofError e) := by
  rcases given_or_fails reply with ⟨v, hv⟩ | ⟨e', he⟩
  · cases hv.ofReply.symm.trans h
  · cases he.ofReply.symm.trans h
    exact he

end Verdict

inductive Way where
  | judged
  | rejected
  | unreachable
  | degraded
  deriving DecidableEq, Repr

namespace Judge

variable {g : Judge} {j : Job}

/-- What the last of `n` calls was and what the outcome is, for each way of ending. -/
inductive EndsBy (g : Judge) (j : Job) (n : Nat) (reply : Reply) : Outcome → Way → Prop where
  | judged {v : Verdict} {r : Result} (hgiven : Verdict.Given reply v) (hanswers : r.Answers j)
      (hpassed : r.passed = v.passed) (hmessage : r.message = v.message) (hline : r.line = v.line)
      (hnoError : r.apiError = false) :
      EndsBy g j n reply (.judged r) .judged
  | rejected {e : CallError} (hfails : Verdict.Fails reply e .auth) :
      EndsBy g j n reply
        (.fatal (.authentication s!"{g.client.credential} is invalid or missing")) .rejected
  | unreachable {e : CallError} (hfails : Verdict.Fails reply e .connection)
      (hfinal : g.policy.IsFinal n .connection) (hlocal : g.client.isLocal = true) :
      EndsBy g j n reply
        (.fatal (.endpoint s!"Cannot connect to {g.client.credential}: {e.text}")) .unreachable
  | degraded {e : CallError} {cls : ErrorClass} {r : Result} (hfails : Verdict.Fails reply e cls)
      (hauth : cls ≠ .auth) (hfinal : g.policy.IsFinal n cls)
      (hreachable : ¬(cls = .connection ∧ g.client.isLocal = true)) (hanswers : r.Answers j)
      (hpassed : r.passed = false) (hmessage : r.message = s!"API error: {e.text}")
      (hline : r.line = none) (herror : r.apiError = true) :
      EndsBy g j n reply (.judged r) .degraded

def wayOf (g : Judge) : Except CallError Verdict → Way
  | .ok _ => .judged
  | .error e =>
    if ErrorClass.ofError e = .auth then .rejected
    else if ErrorClass.ofError e = .connection ∧ g.client.isLocal = true then .unreachable
    else .degraded

theorem EndsBy.way_eq {n : Nat} {reply : Reply} {o : Outcome} {way : Way}
    (h : g.EndsBy j n reply o way) : way = g.wayOf (Verdict.ofReply reply) := by
  cases h with
  | judged hgiven => rw [hgiven.ofReply, wayOf]
  | rejected hfails => rw [hfails.ofReply, wayOf, hfails.ofError, if_pos rfl]
  | unreachable hfails _ hlocal =>
    rw [hfails.ofReply, wayOf, hfails.ofError, if_neg (by decide), if_pos ⟨rfl, hlocal⟩]
  | degraded hfails hauth _ hreachable =>
    rw [hfails.ofReply, wayOf, hfails.ofError, if_neg hauth, if_neg hreachable]

theorem conclude_endsBy {n : Nat} {reply : Reply} {o : RetryOutcome Verdict}
    (hd : g.policy.Timed g.random) (h1 : 1 ≤ n)
    (h : Stops g.policy g.random j.label n (Verdict.ofReply reply) o) (durationMs : Int) :
    ∃ outcome notes way, g.conclude j durationMs o = .ok (outcome, notes) ∧
      g.EndsBy j n reply outcome way := by
  generalize hreply : Verdict.ofReply reply = read at h
  cases h with
  | value v =>
    exact ⟨_, _, .judged, rfl,
      .judged (Verdict.given_of_ofReply hreply) ⟨rfl, rfl, rfl, rfl, rfl⟩ rfl rfl rfl rfl⟩
  | rejected e' hauth =>
    have hfails := Verdict.fails_of_ofReply hreply
    rw [hauth] at hfails
    exact ⟨_, _, .rejected, rfl, .rejected hfails⟩
  | @exhausted e hauth hfinal =>
    have hfails := Verdict.fails_of_ofReply hreply
    by_cases hlocal : ErrorClass.ofError e = .connection ∧ g.client.isLocal = true
    · rw [hlocal.1] at hfails hfinal
      exact ⟨_, _, .unreachable, if_pos (by simpa using hlocal), .unreachable hfails hfinal hlocal.2⟩
    · exact ⟨_, _, .degraded, if_neg (by simpa using hlocal),
        .degraded hfails hauth hfinal hlocal ⟨rfl, rfl, rfl, rfl, rfl⟩ rfl rfl rfl rfl⟩
  | noDelay hleft hdelay =>
    obtain ⟨d, hd, _⟩ := hd n h1 hleft
    cases hd.symm.trans hdelay

/-- How judging a job by the replies of `model` goes, in `n` calls. -/
structure Course (g : Judge) (j : Job) (model : String) (replies : Nat → Reply) (s : Session)
    (n : Nat) (o : Outcome) : Prop where
  outcome : s.outcome = .ok o
  requests : s.requests = List.replicate n (g.request model j)
  atLeast : 1 ≤ n
  atMost : n ≤ max 1 g.policy.maxAttempts.toNat
  /-- Every call before the last failed in a way that another one may help against. -/
  repeated : ∀ k, 1 ≤ k → k < n → ∃ e cls,
    Verdict.Fails (replies k) e cls ∧ cls ∈ g.policy.retryable ∧ cls ≠ .auth
  oneWay : ∃! way, g.EndsBy j n (replies n) o way
  /-- Calls are left only behind a verdict and behind a failure that no call helps against. -/
  early : n < max 1 g.policy.maxAttempts.toNat → ∀ e cls, Verdict.Fails (replies n) e cls →
    cls = .auth ∨ cls ∉ g.policy.retryable

end Judge

namespace Sample

def onceOnly : Judge := { (setting .error 1 0.5).judge with policy := { maxAttempts := 1 } }

theorem onceOnly_timed : onceOnly.policy.Timed onceOnly.random := by
  intro attempt h1 hlt
  change (attempt : Int) < 1 at hlt
  omega

end Sample
end JudgedLint.Lint
