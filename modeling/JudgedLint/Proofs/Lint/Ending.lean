import JudgedLint.Proofs.Cache.Disk
import JudgedLint.Proofs.Lint.Ledger
import JudgedLint.Proofs.Lint.Planning

/-! How a run ends. It completes only if it was planned, each of its jobs was judged with a result,
and the cache was saved; in every other case it fails, with nothing reported and every file as it
was. -/
namespace JudgedLint.Lint.Run

open Model (Reply)

variable {σ : Type} {g : Setting σ} {store : Cache.Store} {paths : List String} {world : World σ}
  {r : Run σ} {c : Completed} {p : Plan} {fan : Fanout σ}

/-- What is known of a run that completed: its plan, the end of its judging, and the save. -/
structure Judged (g : Setting σ) (store : Cache.Store) (paths : List String) (world : World σ)
    (r : Run σ) (c : Completed) (p : Plan) (fan : Fanout σ) : Prop where
  plan : plan g store paths world.tree = .ok p
  reaches : Fanout.Reaches g.model g.judge { run := some g.runId }
    (.start g.slots world.source world.now p.unjudged) fan
  ended : fan.Ended
  failure : fan.failure = none
  saved : ∃ notes, (filled g p world.stored fan.history.judged).save world.tree =
    (.ok notes, r.world.tree)
  results : c.results = results p fan
  summary : ∃ durationMs, c.summary = .ofResults c.results p.files durationMs
  code : c.code = exitCode c.results c.summary
  history : ∃ before after, r.history = p.history ++ fan.history ++ noted g.runId before ++
    [.reported c.results c.summary] ++ noted g.runId after

theorem finish_judged (hp : Run.plan g store paths world.tree = .ok p)
    (hr : Fanout.Reaches g.model g.judge { run := some g.runId }
      (.start g.slots world.source world.now p.unjudged) fan)
    (he : fan.Ended) (hc : (finish g p world fan).outcome = .ok c) :
    Judged g store paths world (finish g p world fan) c p fan := by
  simp only [finish] at hc
  cases hf : fan.failure with
  | some f =>
    rw [hf] at hc
    cases hc
  | none =>
    rw [hf] at hc
    simp only at hc
    split at hc
    · cases hc
    · next notes tree hs =>
      cases hc
      simp only [finish, hf, hs]
      exact ⟨hp, hr, he, hf, ⟨notes, hs⟩, rfl, ⟨_, rfl⟩, rfl, ⟨_, _, rfl⟩⟩

theorem Possible.judged (h : Possible g store paths world r) (hc : r.outcome = .ok c) :
    ∃ p fan, Judged g store paths world r c p fan := by
  cases h with
  | unplanned hp => cases hc
  | @planned p fan hp hr he => exact ⟨p, fan, finish_judged hp hr he hc⟩

/-- Results of all misses of a plan, in the order in which they came in, each of them what judging
the miss by a script comes to. -/
structure Judgments (g : Setting σ) (p : Plan) (replies : Job → Nat → Reply)
    (judged : List (Job × Result)) : Prop where
  perm : (judged.map (·.1)).Perm p.unjudged
  settled : ∀ q ∈ judged, g.judge.settle q.1 (replies q.1) = .ok q.2.timeless

inductive Fails (g : Setting σ) (store : Cache.Store) (paths : List String) (world : World σ)
    (replies : Job → Nat → Reply) (f : Failure) : Prop where
  | unplanned {history : History} (hp : plan g store paths world.tree = .error (f, history))
  | aborted {p : Plan} {j : Job} (hp : plan g store paths world.tree = .ok p) (hj : j ∈ p.unjudged)
      (hs : g.judge.settle j (replies j) = .error f)
  | unsaved {p : Plan} {judged : List (Job × Result)} {e : Cache.Store.SaveError}
      {tree : Workspace.Tree} (hp : plan g store paths world.tree = .ok p)
      (hj : Judgments g p replies judged)
      (hs : (filled g p world.stored judged).save world.tree = (.error e, tree)) (hf : f = .ofSave e)

/-- The tree behind a run that fails: what it was, or with directories made by a save that failed. -/
def Untouched (store : Cache.Store) (t t' : Workspace.Tree) : Prop :=
  t' = t ∨ ∃ (s : Cache.Store) (e : Cache.Store.SaveError), s.dir = store.dir ∧ s.save t = (.error e, t')

theorem judgments (hr : Fanout.Reaches g.model g.judge { run := some g.runId }
      (.start g.slots world.source world.now p.unjudged) fan)
    (he : fan.Ended) (hf : fan.failure = none) {replies : Job → Nat → Reply}
    (hs : fan.history.Follows replies) : Judgments g p replies fan.history.judged := by
  obtain ⟨done, hdone, hsettled⟩ := hr.settled he hf
  refine ⟨hdone.judged_perm, ?_⟩
  rw [hdone.judged]
  intro q hq
  obtain ⟨d, hd, rfl⟩ := List.mem_map.mp hq
  exact hsettled replies hs d hd

/-- A run that fails has a reason to, has reported nothing, and has left the files as they were. -/
theorem Possible.fails (h : Possible g store paths world r) {replies : Job → Nat → Reply}
    (hs : r.history.Follows replies) {f : Failure} (hf : r.outcome = .error f) :
    Fails g store paths world replies f ∧ r.history.reports = 0 ∧
      Untouched store world.tree r.world.tree := by
  cases h with
  | unplanned hp =>
    cases hf
    obtain ⟨records, rfl⟩ := plan_error_history hp
    exact ⟨.unplanned hp, History.reports_noted _ _, .inl rfl⟩
  | @planned p fan hp hr he =>
    have hplanned := plan_planned hp
    have hreports : (p.history ++ fan.history).reports = 0 := by
      rw [History.reports_append, hplanned.reports, hr.reports]
      rfl
    cases hfail : fan.failure with
    | some f' =>
      simp only [finish, hfail] at hf hs ⊢
      cases hf
      obtain ⟨done, lost, ha⟩ := hr.accounts
      obtain ⟨j, hj, hsettle⟩ := ha.failed_job hfail hs.of_append_right
      exact ⟨.aborted hp hj hsettle, hreports, .inl rfl⟩
    | none =>
      generalize hsave : (filled g p world.stored fan.history.judged).save world.tree = saved
      obtain ⟨result, tree⟩ := saved
      cases result with
      | ok notes =>
        simp only [finish, hfail, hsave] at hf
        cases hf
      | error e =>
        simp only [finish, hfail, hsave] at hf hs ⊢
        cases hf
        have hj := judgments hr he hfail hs.of_append_right
        obtain ⟨notes, hload⟩ := hplanned.loaded
        have hdir : p.store.dir = store.dir := Cache.Store.load_dir hload
        exact ⟨.unsaved hp hj hsave rfl, hreports, .inr ⟨filled g p _ _, e, hdir, hsave⟩⟩

theorem Judged.settled (h : Judged g store paths world r c p fan) {replies : Job → Nat → Reply}
    (hs : r.history.Follows replies) :
    List.Forall₂ (fun j result => g.judge.settle j (replies j) = .ok result.timeless) p.unjudged
      (Fanout.inOrder fan.results p.unjudged.length) := by
  obtain ⟨before, after, hh⟩ := h.history
  rw [hh] at hs
  obtain ⟨done, hdone, hsettled⟩ := h.reaches.settled h.ended h.failure
  exact hdone.forall₂_inOrder (P := fun j result => g.judge.settle j (replies j) = .ok result.timeless)
    (hsettled replies hs.of_append.of_append.of_append.of_append_right)

theorem Judged.judgments (h : Judged g store paths world r c p fan) {replies : Job → Nat → Reply}
    (hs : r.history.Follows replies) : Judgments g p replies fan.history.judged := by
  obtain ⟨before, after, hh⟩ := h.history
  rw [hh] at hs
  exact Run.judgments h.reaches h.ended h.failure hs.of_append.of_append.of_append.of_append_right

end JudgedLint.Lint.Run
