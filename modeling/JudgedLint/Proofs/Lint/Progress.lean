import JudgedLint.Proofs.Lint.Chronicle

/-! How a run gets on. Whatever the order in which its jobs are judged, they are counted from one
without a gap: first those that the cache answers, then the others, each when its result is stored. A
run that fails has told the beginning of such a count. -/
namespace JudgedLint.Lint

open Cache (Store)

/-- The count of a run that completes: each job once, in steps of one up to the number of jobs. -/
structure Tally (d : Cache.Document) (jobs : List Job) (steps : List Progress) : Prop where
  completed : steps.map (·.completed) = List.range' 1 jobs.length
  total : ∀ p ∈ steps, p.total = jobs.length
  once : (steps.map (·.job)).Perm jobs
  cachedFirst : ∃ judged : List Job, steps.map (fun p => (p.job, p.cached)) =
    (jobs.filter (·.isStored d)).map (·, true) ++ judged.map (·, false)

/-- The steps at which jobs are completed, with whether the cache answered them, numbered from `first`
on. -/
def Progress.counted (total first : Nat) (completions : List (Job × Bool)) : List Progress :=
  (completions.zipIdx first).map fun c => ⟨c.2, total, c.1.1, c.1.2⟩

namespace Progress

variable {total first : Nat} {cs cs' : List (Job × Bool)}

theorem counted_append : counted total first (cs ++ cs') =
    counted total first cs ++ counted total (first + cs.length) cs' := by
  rw [counted, List.zipIdx_append, List.map_append]
  rfl

theorem length_counted : (counted total first cs).length = cs.length := by
  rw [counted, List.length_map, List.length_zipIdx]

theorem completed_counted : (counted total first cs).map (·.completed) =
    List.range' first cs.length := by
  rw [counted, List.map_map]
  exact List.zipIdx_map_snd first cs

theorem completions_counted : (counted total first cs).map (fun p => (p.job, p.cached)) = cs := by
  rw [counted, List.map_map]
  exact List.zipIdx_map_fst first cs

end Progress

theorem tally_counted {d : Cache.Document} {jobs judged : List Job}
    (h : judged.Perm (jobs.filter (!·.isStored d))) :
    Tally d jobs (Progress.counted jobs.length 1
      ((jobs.filter (·.isStored d)).map (·, true) ++ judged.map (·, false))) := by
  have hperm : (jobs.filter (·.isStored d) ++ judged).Perm jobs :=
    (h.append_left _).trans (List.filter_append_perm _ _)
  have hlength : ((jobs.filter (·.isStored d)).map (·, true) ++ judged.map (·, false)).length =
      jobs.length := by
    rw [← hperm.length_eq]
    simp only [List.length_append, List.length_map]
  refine ⟨?_, fun p hp => ?_, ?_, judged, Progress.completions_counted⟩
  · rw [Progress.completed_counted, hlength]
  · obtain ⟨c, _, rfl⟩ := List.mem_map.mp hp
    rfl
  · have hjobs := congrArg (List.map Prod.fst) (@Progress.completions_counted jobs.length 1
      ((jobs.filter (·.isStored d)).map (·, true) ++ judged.map (·, false)))
    rw [List.map_map, List.map_append, List.map_map, List.map_map] at hjobs
    simp only [Function.comp_def, List.map_id'] at hjobs
    rw [hjobs]
    exact hperm

namespace History

variable {h h' : History}

def completions (h : History) : List (Job × Bool) :=
  h.filterMap fun e => match e with
    | .served j _ => some (j, true)
    | .finished j _ => some (j, false)
    | _ => none

theorem completions_append : completions (h ++ h') = h.completions ++ h'.completions :=
  List.filterMap_append

theorem completions_fanout_noted (context : Log.Context) (j : Job) (rs : List Log.Record) :
    completions (Fanout.noted context j rs) = [] := by
  refine List.filterMap_eq_nil_iff.mpr fun e he => ?_
  obtain ⟨r, _, rfl⟩ := List.mem_map.mp he
  rfl

theorem completions_noted (runId : String) (rs : List Log.Record) :
    completions (Run.noted runId rs) = [] := by
  refine List.filterMap_eq_nil_iff.mpr fun e he => ?_
  obtain ⟨r, _, rfl⟩ := List.mem_map.mp he
  rfl

theorem completions_served (served : List (Job × Result)) :
    completions (served.map fun s => .served s.1 s.2) = (served.map (·.1)).map (·, true) := by
  induction served with
  | nil => rfl
  | cons s rest ih => exact congrArg ((s.1, true) :: ·) ih

theorem judged_jobs (h : History) : h.judged.map (·.1) = (h.completions.filter (!·.2)).map (·.1) := by
  induction h with
  | nil => rfl
  | cons e rest ih =>
    cases e with
    | finished j r => exact congrArg (j :: ·) ih
    | served j r => exact ih
    | noted r => exact ih
    | called request => exact ih
    | answered j attempt reply => exact ih
    | reported results summary => exact ih

/-- Only what completes a job is counted, and each completed job is. -/
theorem progress_eq (total first : Nat) (h : History) :
    h.progress total first = Progress.counted total first h.completions := by
  induction h generalizing first with
  | nil => rfl
  | cons e rest ih =>
    cases e with
    | served j r => exact congrArg (_ :: ·) (ih (first + 1))
    | finished j r => exact congrArg (_ :: ·) (ih (first + 1))
    | noted r => exact ih first
    | called request => exact ih first
    | answered j attempt reply => exact ih first
    | reported results summary => exact ih first

theorem progress_append (total first : Nat) : History.progress total first (h ++ h') =
    h.progress total first ++ h'.progress total (first + (h.progress total first).length) := by
  simp only [progress_eq, completions_append, Progress.counted_append, Progress.length_counted]

theorem exists_judged {total first : Nat} {s : Progress} (hs : s ∈ h.progress total first)
    (hcached : s.cached = false) : ∃ result, (s.job, result) ∈ h.judged := by
  rw [progress_eq] at hs
  have hmem := List.mem_map_of_mem (f := fun q => (q.job, q.cached)) hs
  rw [Progress.completions_counted, hcached] at hmem
  have hjob : s.job ∈ h.judged.map (·.1) := by
    rw [judged_jobs]
    exact List.mem_map.mpr ⟨_, List.mem_filter.mpr ⟨hmem, rfl⟩, rfl⟩
  obtain ⟨⟨j, result⟩, hq, hj⟩ := List.mem_map.mp hjob
  dsimp only at hj
  subst hj
  exact ⟨result, hq⟩

end History

namespace Fanout

variable {σ : Type} {m : Model.Source σ} {g : Judge} {context : Log.Context} {s s' : Fanout σ}
  {slots : Nat} {jobs : List Job} {source : σ} {now : Float}

def Judging (s : Fanout σ) : Prop :=
  s.history.completions = (s.history.judged.map (·.1)).map (·, false)

theorem Judging.append (h : s.Judging) {es : History} (hes : s'.history = s.history ++ es)
    (hnew : es.completions = (es.judged.map (·.1)).map (·, false)) : s'.Judging := by
  rw [Judging, hes, History.completions_append, History.judged_append, List.map_append,
    List.map_append, hnew, h]

theorem Change.judging (h : Change g context s s') (hj : s.Judging) : s'.Judging := by
  cases h with
  | unknown now hq he => exact hj
  | started now source hfree hq hm hi hj' ha hw => exact hj.append rfl rfl
  | resumed now source hz hp hs ha hw => exact hj.append rfl rfl
  | paused now hz hw hr hs ha hp => exact hj.append rfl rfl
  | failed now notes hz hw hr hf =>
    refine hj.append rfl ?_
    rw [History.judged_answered, History.judged_noted]
    exact History.completions_fanout_noted context _ notes
  | judged now notes hz hw hr hf =>
    refine hj.append rfl ?_
    rw [History.judged_answered, History.judged_append, History.judged_noted]
    change History.completions (_ ++ _) = _
    rw [History.completions_append, History.completions_fanout_noted]
    rfl

theorem Reaches.judging (h : Reaches m g context (start slots source now jobs) s) : s.Judging := by
  induction h with
  | refl => rfl
  | tail _ hs ih => exact (Step.change hs).judging ih

/-- At each time some jobs have been judged, and the others are left. -/
theorem Reaches.exists_left (h : Reaches m g context (start slots source now jobs) s) :
    ∃ left, (s.history.judged.map (·.1) ++ left).Perm jobs := by
  obtain ⟨done, lost, ha⟩ := h.accounts
  have hplaces := ha.places.map Prod.snd
  rw [numbered_jobs] at hplaces
  refine ⟨(s.queue ++ s.asleep.map (fun z => (z.index, z.job)) ++
    lost.map fun l => (l.index, l.job)).map Prod.snd, List.Perm.trans ?_ hplaces⟩
  rw [ha.judged]
  simp only [places, List.map_append, List.map_map, Function.comp_def]
  refine List.perm_iff_count.mpr fun j => ?_
  simp only [List.count_append]
  omega

end Fanout

namespace Run

variable {σ : Type} {g : Setting σ} {store : Store} {paths : List String} {world : World σ}
  {r : Run σ} {p : Plan} {fan : Fanout σ}

theorem finish_history (g : Setting σ) (p : Plan) (world : World σ) (fan : Fanout σ) :
    ∃ after, (finish g p world fan).history = p.history ++ fan.history ++ after ∧
      History.completions after = [] := by
  unfold finish
  dsimp only
  split
  · exact ⟨[], (List.append_nil _).symm, rfl⟩
  · split
    · exact ⟨[], (List.append_nil _).symm, rfl⟩
    · refine ⟨_, by simp only [List.append_assoc]; rfl, ?_⟩
      simp only [History.completions_append, History.completions_noted]
      rfl

theorem finish_total (g : Setting σ) (p : Plan) (world : World σ) (fan : Fanout σ) :
    (finish g p world fan).total = p.jobs.length := by
  unfold finish
  dsimp only
  split
  · rfl
  · split <;> rfl

theorem Planned.completions (h : Planned g store paths world.tree p) :
    p.history.completions = (p.jobs.filter (·.isStored p.store.document)).map (·, true) := by
  obtain ⟨before, after, hhistory⟩ := h.history
  rw [hhistory, History.completions_append, History.completions_append, History.completions_noted,
    History.completions_noted, History.completions_served, List.append_nil, List.nil_append,
    Plan.served, hits_jobs]

theorem finish_progress (hp : plan g store paths world.tree = .ok p)
    (hr : Fanout.Reaches g.model g.judge { run := some g.runId }
      (.start g.slots world.source world.now p.unjudged) fan) :
    (finish g p world fan).history.progress (finish g p world fan).total 1 =
      Progress.counted p.jobs.length 1
        ((p.jobs.filter (·.isStored p.store.document)).map (·, true) ++
          (fan.history.judged.map (·.1)).map (·, false)) := by
  obtain ⟨after, hhistory, hafter⟩ := finish_history g p world fan
  rw [History.progress_eq, finish_total, hhistory, History.completions_append,
    History.completions_append, (plan_planned hp).completions, hr.judging, hafter, List.append_nil]

theorem progress_of_unplanned {f : Failure} {history : History}
    (h : plan g store paths world.tree = .error (f, history)) : history.progress 0 1 = [] := by
  obtain ⟨records, rfl⟩ := plan_error_history h
  rw [History.progress_eq, History.completions_noted]
  rfl

theorem judged_left (hp : plan g store paths world.tree = .ok p)
    (hr : Fanout.Reaches g.model g.judge { run := some g.runId }
      (.start g.slots world.source world.now p.unjudged) fan) :
    ∃ left, ((finish g p world fan).history.judged.map (·.1) ++ left).Perm p.unjudged := by
  obtain ⟨after, hhistory, hafter⟩ := finish_history g p world fan
  obtain ⟨left, hperm⟩ := hr.exists_left
  refine ⟨left, ?_⟩
  have hplanned := History.judged_jobs p.history
  rw [(plan_planned hp).completions, List.filter_map, List.filter_eq_nil_iff.mpr (by simp)] at hplanned
  have hbehind := History.judged_jobs after
  rw [hafter] at hbehind
  rw [hhistory, History.judged_append, History.judged_append, List.map_append, List.map_append,
    hplanned, hbehind]
  simpa using hperm

/-- The cache in memory when a part of a run's history has happened. -/
def cacheAfter (g : Setting σ) (p : Plan) (world : World σ) (past : History) : Cache.Document :=
  (filled g p world.stored past.judged).document

def Holds (d : Cache.Document) (j : Job) (result : Result) : Prop :=
  d.lookup j.rule.id j.file j.fileHash j.promptHash = some result

theorem storeAll_append (stamp : Nat → Calendar.Moment) (stored : Nat) (judged : List (Job × Result))
    (q : Job × Result) (d : Cache.Document) : ∃ moment,
      storeAll stamp stored (judged ++ [q]) d = (storeAll stamp stored judged d).store q.1.rule.id
        q.1.file q.1.fileHash q.1.promptHash q.2 moment := by
  refine ⟨stamp (stored + 1 + judged.length), ?_⟩
  rw [storeAll, List.zipIdx_append, List.foldl_append]
  rfl

theorem holds_store (d : Cache.Document) (j : Job) (result : Result) (moment : Calendar.Moment) :
    Holds (d.store j.rule.id j.file j.fileHash j.promptHash result moment) j result :=
  Cache.Document.lookup_eq_some.mpr ⟨_, Json.lookup_put_self _ _ _, rfl, rfl, rfl⟩

/-- What has been told of the judged jobs when a part of a run's history has happened. -/
structure Told (g : Setting σ) (p : Plan) (world : World σ) (total : Nat) (past : History) : Prop where
  /-- A job that has just been judged has the next number, and the cache answers it by now. -/
  latest : ∀ (before : History) j result, past = before ++ [.finished j result] →
    past.progress total 1 =
      before.progress total 1 ++ [⟨(before.progress total 1).length + 1, total, j, false⟩] ∧
    Holds (cacheAfter g p world past) j result
  /-- So it does for all jobs that have been told as judged, if no rules share an id. -/
  stored : WellNamed g.rules → ∀ s ∈ past.progress total 1, s.cached = false →
    ∃ result, .finished s.job result ∈ past ∧ Holds (cacheAfter g p world past) s.job result

theorem holds_latest (g : Setting σ) (p : Plan) (world : World σ) (before : History) (j : Job)
    (result : Result) : Holds (cacheAfter g p world (before ++ [.finished j result])) j result := by
  obtain ⟨moment, hstored⟩ := storeAll_append g.stamp world.stored before.judged (j, result)
    p.store.document
  rw [cacheAfter, filled, History.judged_append, History.judged_finished, History.judged_nil, hstored]
  exact holds_store _ j result moment

theorem holds_of_judged {past : History} (hk : (past.judged.map (·.1.key)).Nodup)
    {j : Job} {result : Result} (hq : (j, result) ∈ past.judged) :
    Holds (cacheAfter g p world past) j result := by
  have hfilled : Filled g.stamp p.store.document past.judged (cacheAfter g p world past) :=
    storeAll_filled hk p.store.document
  obtain ⟨n, hn⟩ := hfilled.stored (j, result) hq
  exact Cache.Document.lookup_eq_some.mpr ⟨_, hn, rfl, rfl, rfl⟩

/-- No two jobs that have been judged share a key, at each time of a run. -/
theorem nodup_judged (hp : plan g store paths world.tree = .ok p)
    (hr : Fanout.Reaches g.model g.judge { run := some g.runId }
      (.start g.slots world.source world.now p.unjudged) fan) (hw : WellNamed g.rules)
    {past rest : History} (h : (finish g p world fan).history = past ++ rest) :
    (past.judged.map (·.1.key)).Nodup := by
  have hkeys : (p.unjudged.map Job.key).Nodup := ((plan_planned hp).nodup_keys hw).sublist
    ((List.filter_sublist (p := fun j => (cachedResult p.store.document j).isNone)).map Job.key)
  obtain ⟨left, hperm⟩ := judged_left hp hr
  rw [h, History.judged_append, List.map_append, List.append_assoc] at hperm
  have hall := (hperm.map Job.key).nodup_iff.mpr hkeys
  rw [List.map_append, List.map_map] at hall
  exact hall.of_append_left

theorem told (hp : plan g store paths world.tree = .ok p)
    (hr : Fanout.Reaches g.model g.judge { run := some g.runId }
      (.start g.slots world.source world.now p.unjudged) fan) (total : Nat) {past rest : History}
    (h : (finish g p world fan).history = past ++ rest) : Told g p world total past := by
  constructor
  · rintro before j result rfl
    refine ⟨?_, holds_latest g p world before j result⟩
    rw [History.progress_append, Nat.add_comm 1]
    rfl
  · intro hw s hs hcached
    obtain ⟨result, hjudged⟩ := History.exists_judged hs hcached
    exact ⟨result, History.mem_judged.mp hjudged, holds_of_judged (nodup_judged hp hr hw h) hjudged⟩

end Run

namespace Sample

open Cache.Sample

end Sample

end JudgedLint.Lint
