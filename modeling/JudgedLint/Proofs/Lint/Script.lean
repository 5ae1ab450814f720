import JudgedLint.Proofs.Cache.Entries
import JudgedLint.Proofs.Lint.Ending

/-! Whatever a model answers, a run of it follows some script: a list of replies to the attempts on
each job. For no attempt on a job is answered twice, in whatever order the jobs go on. -/
namespace JudgedLint.Lint.Fanout

open Model (Reply)

variable {σ : Type} {m : Model.Source σ} {g : Judge} {context : Log.Context} {slots : Nat}
  {s s' : Fanout σ} {jobs : List Job} {before after : List Sleeper} {z : Sleeper}

/-- Which answers there can have been: one to each earlier attempt of a sleeper, none to a job that
has not started. -/
structure Asked (s : Fanout σ) : Prop where
  once : ∀ j k r r', (j, k, r) ∈ s.history.answers → (j, k, r') ∈ s.history.answers → r = r'
  waiting : ∀ q ∈ s.queue, ∀ k r, (q.2, k, r) ∉ s.history.answers
  past : ∀ z ∈ s.asleep, ∀ k r, (z.job, k, r) ∈ s.history.answers → k < z.attempt

def Apart (s : Fanout σ) : Prop := (s.queue.map (·.2) ++ s.asleep.map (·.job)).Nodup

theorem Accounts.apart {done : List Done} {lost : List Lost} (h : Accounts g jobs s done lost)
    (hj : jobs.Nodup) : s.Apart := by
  have hp := h.places.map Prod.snd
  rw [numbered_jobs] at hp
  have hnodup := hp.nodup_iff.mpr hj
  simp only [Fanout.places, List.map_append, List.map_map] at hnodup
  exact hnodup.of_append_left.of_append_left

namespace Asked

theorem job_ne (hn : s.Apart) (hz : s.asleep = before ++ z :: after) :
    (∀ q ∈ s.queue, q.2 ≠ z.job) ∧ ∀ y ∈ before ++ after, y.job ≠ z.job := by
  have hperm : (s.queue.map (·.2) ++ s.asleep.map (·.job)).Perm
      (z.job :: (s.queue.map (·.2) ++ (before ++ after).map (·.job))) := by
    rw [hz, List.map_append, List.map_cons, List.map_append, ← List.append_assoc, ← List.append_assoc]
    exact List.perm_middle
  obtain ⟨hnew, _⟩ := List.nodup_cons.mp (hperm.nodup_iff.mp hn)
  refine ⟨fun q hq heq => hnew ?_, fun y hy heq => hnew ?_⟩
  · exact List.mem_append_left _ (List.mem_map.mpr ⟨q, hq, heq⟩)
  · exact List.mem_append_right _ (List.mem_map.mpr ⟨y, hy, heq⟩)

theorem fewer (h : Asked s) {queue : List (Nat × Job)} {asleep : List Sleeper} (free : Nat) (now : Float)
    (source : σ) (results : List (Nat × Result)) (failure : Option Failure) {es : History}
    (hq : queue ⊆ s.queue) (hz : asleep ⊆ s.asleep) (hes : History.answers es = []) :
    Asked ⟨queue, asleep, free, now, source, results, s.history ++ es, failure⟩ where
  once := by simpa [hes] using h.once
  waiting := by
    intro q hmem k r
    simpa [hes] using h.waiting q (hq hmem) k r
  past := by
    intro z hmem k r
    simpa [hes] using h.past z (hz hmem) k r

theorem slept (h : Asked s) (hz : ∀ k r, (z.job, k, r) ∈ s.history.answers → k < z.attempt) :
    Asked { s with asleep := s.asleep ++ [z] } where
  once := h.once
  waiting := h.waiting
  past := by
    intro y hy
    rcases List.mem_append.mp hy with hy | hy
    · exact h.past y hy
    · obtain rfl := List.mem_singleton.mp hy
      exact hz

theorem answered (h : Asked s) (hn : s.Apart) (hz : s.asleep = before ++ z :: after) (free : Nat)
    (now : Float) (results : List (Nat × Result)) (failure : Option Failure) (reply : Reply) {es : History}
    (hes : History.answers es = [(z.job, z.attempt, reply)]) :
    Asked ⟨s.queue, before ++ after, free, now, s.source, results, s.history ++ es, failure⟩ where
  once := by
    have hnew : ∀ r, (z.job, z.attempt, r) ∉ s.history.answers := by
      intro r hr
      exact Nat.lt_irrefl _ (h.past z (by simp [hz]) _ _ hr)
    intro j k r r' hr hr'
    simp only [History.answers_append, hes, List.mem_append, List.mem_singleton, Prod.mk.injEq]
      at hr hr'
    rcases hr with hr | ⟨rfl, rfl, rfl⟩
    · rcases hr' with hr' | ⟨rfl, rfl, rfl⟩
      · exact h.once j k r r' hr hr'
      · exact absurd hr (hnew r)
    · rcases hr' with hr' | ⟨_, _, rfl⟩
      · exact absurd hr' (hnew r')
      · rfl
  waiting := by
    intro q hq k r hr
    simp only [History.answers_append, hes, List.mem_append, List.mem_singleton, Prod.mk.injEq] at hr
    rcases hr with hr | ⟨heq, _, _⟩
    · exact h.waiting q hq k r hr
    · exact (job_ne hn hz).1 q hq heq
  past := by
    intro y hy k r hr
    simp only [History.answers_append, hes, List.mem_append, List.mem_singleton, Prod.mk.injEq] at hr
    rcases hr with hr | ⟨heq, _, _⟩
    · have hsub : before ++ after ⊆ s.asleep := by simp [hz]
      exact h.past y (hsub hy) k r hr
    · exact absurd heq ((job_ne hn hz).2 y hy)

theorem step (h : Asked s) (hn : s.Apart) (hs : Change g context s s') : Asked s' := by
  cases hs with
  | @unknown before after q e now hq he =>
    have hqueue : before ++ after ⊆ s.queue := by simp [hq]
    have hfewer := h.fewer s.free now s.source s.results (s.failure.or (some (.catalog e))) hqueue
      (List.Subset.refl s.asleep) History.answers_nil
    rwa [List.append_nil] at hfewer
  | @started before after q z reply now source hfree hq hm hi hj ha hw =>
    refine (h.fewer (s.free - 1) now source s.results s.failure (by simp [hq])
      (List.Subset.refl _) ?_).slept ?_
    · rfl
    · intro k r hr
      refine absurd ?_ (h.waiting q (by simp [hq]) k r)
      simpa [hj] using hr
  | @resumed before after z z' reply now source hz hp hs ha hw =>
    have hj : z'.job = z.job := congrArg Active.job hs
    refine (h.fewer s.free now source s.results s.failure (List.Subset.refl _)
      (by simp [hz]) ?_).slept ?_
    · rfl
    · intro k r hr
      rw [hj] at hr
      rw [ha]
      exact h.past z (by simp [hz]) k r (by simpa using hr)
  | @paused before after z z' reply seconds note now hz hw hr hs ha hp =>
    have hj : z'.job = z.job := congrArg Active.job hs
    refine (h.answered hn hz s.free now s.results s.failure reply ?_).slept ?_
    · simp
    · intro k r hmem
      simp only [History.answers_append, History.answers_answered, History.answers_fanout_noted, List.mem_append,
        List.mem_singleton, Prod.mk.injEq, hj] at hmem
      rw [ha]
      rcases hmem with hmem | ⟨_, rfl, _⟩
      · exact Nat.lt_succ_of_lt (h.past z (by simp [hz]) k r hmem)
      · exact Nat.lt_succ_self _
  | @failed before after z reply o start stop f now notes hz hw hr hf =>
    exact h.answered hn hz (s.free + 1) now s.results (s.failure.or (some f)) reply (by simp)
  | @judged before after z reply o start stop r now notes hz hw hr hf =>
    exact h.answered hn hz (s.free + 1) now (s.results ++ [(z.index, r)]) s.failure reply (by simp)

end Asked

theorem Reaches.asked {source : σ} {now : Float} (hj : jobs.Nodup)
    (h : Reaches m g context (start slots source now jobs) s) : Asked s := by
  induction h with
  | refl => exact ⟨by simp [start], by simp [start], by simp [start]⟩
  | tail hr hs ih =>
    obtain ⟨done, lost, ha⟩ := Reaches.accounts hr
    exact ih.step (ha.apart hj) (Step.change hs)

/-- There is a script for the answers, whoever gave them. -/
theorem Reaches.follows {source : σ} {now : Float} (hj : jobs.Nodup)
    (h : Reaches m g context (start slots source now jobs) s) :
    ∃ replies, s.history.Follows replies := by
  have hasked := h.asked hj
  refine ⟨fun j k => ((s.history.answers.find? fun a => a.1 == j && a.2.1 == k).map (·.2.2)).getD (.ok ""),
    fun j k r hr => ?_⟩
  have hmem := History.mem_answers.mpr hr
  cases hfind : s.history.answers.find? fun a => a.1 == j && a.2.1 == k with
  | none => exact absurd (List.find?_eq_none.mp hfind _ hmem) (by simp)
  | some a =>
    obtain ⟨j', k', r'⟩ := a
    have hkey := List.find?_some hfind
    simp only [Bool.and_eq_true, beq_iff_eq] at hkey
    obtain ⟨rfl, rfl⟩ := hkey
    simp only [hfind]
    exact hasked.once _ _ r r' hmem (List.mem_of_find?_eq_some hfind)

end JudgedLint.Lint.Fanout

namespace JudgedLint.Lint.Run

variable {σ : Type} {g : Setting σ} {store : Cache.Store} {paths : List String} {world : World σ}
  {r : Run σ} {p : Plan} {fan : Fanout σ}

theorem Planned.nodup_unjudged {t : Workspace.Tree} (hp : Planned g store paths t p)
    (hw : WellNamed g.rules) : p.unjudged.Nodup :=
  (hp.nodup_keys hw).of_map.filter _

theorem Planned.nodup_judged {t : Workspace.Tree} (hp : Planned g store paths t p)
    (hw : WellNamed g.rules) {judged : List (Job × Result)}
    (hperm : (judged.map (·.1)).Perm p.unjudged) : (judged.map (·.1.key)).Nodup := by
  have hkeys := (hperm.map Job.key).nodup_iff.mpr
    ((hp.nodup_keys hw).sublist (List.filter_sublist.map Job.key))
  rwa [List.map_map] at hkeys

theorem Planned.answers {t : Workspace.Tree} (hp : Planned g store paths t p) :
    p.history.answers = [] := by
  obtain ⟨before, after, hh⟩ := hp.history
  rw [hh]
  simp

theorem finish_answers (hp : Planned g store paths world.tree p) (fan : Fanout σ) :
    (finish g p world fan).history.answers = fan.history.answers := by
  simp only [finish]
  split
  · simp [hp.answers]
  · split <;> simp [hp.answers]

/-- Every run follows some script. -/
theorem Possible.follows (h : Possible g store paths world r) (hw : WellNamed g.rules) :
    ∃ replies, r.history.Follows replies := by
  cases h with
  | unplanned hp =>
    obtain ⟨records, rfl⟩ := plan_error_history hp
    exact ⟨fun _ _ => .ok "", History.follows_iff.mpr (by simp)⟩
  | @planned p fan hp hr he =>
    have hplanned := plan_planned hp
    obtain ⟨replies, hreplies⟩ := hr.follows (hplanned.nodup_unjudged hw)
    refine ⟨replies, History.follows_iff.mpr ?_⟩
    rw [finish_answers hplanned]
    exact History.follows_iff.mp hreplies

end JudgedLint.Lint.Run
