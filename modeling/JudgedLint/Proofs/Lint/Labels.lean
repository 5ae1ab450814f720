import JudgedLint.Proofs.Lint.Chronicle

/-! Names and severities in results. A job is known by its rule's id, its file and the fingerprints of
text and prompt; what else the rule says is not compared. So a result carries the name and the
severity of the rule as it was in the run that judged the job, and they are the current ones just as
long as the rule keeps them. -/
namespace JudgedLint.Lint

open Workspace (Path Tree)

variable {σ : Type} {dir : Path} {t : Tree} {e : Episode σ} {past later episodes : List (Episode σ)}
  {c : Completed} {j : Job} {r : Result}

/-- No fingerprint tells the jobs apart. -/
structure Job.Same (j j' : Job) : Prop where
  ruleId : j.rule.id = j'.rule.id
  file : j.file = j'.file
  fileHash : j.fileHash = j'.fileHash
  promptHash : j.promptHash = j'.promptHash

theorem Job.Same.trans {j₁ j₂ j₃ : Job} (h : j₁.Same j₂) (h' : j₂.Same j₃) : j₁.Same j₃ :=
  ⟨h.ruleId.trans h'.ruleId, h.file.trans h'.file, h.fileHash.trans h'.fileHash,
    h.promptHash.trans h'.promptHash⟩

/-- The result of a job is the one with which a run judged the same job, marked as cached. -/
structure Origin (e : Episode σ) (j₀ j : Job) (r : Result) : Prop where
  job : j₀ ∈ e.jobs
  same : j₀.Same j
  judged : ∃ r₀, .finished j₀ r₀ ∈ e.run.history ∧ r₀.Answers j₀ ∧ r = { r₀ with cached := true }

namespace Origin

variable {j₀ : Job}

theorem ruleName (h : Origin e j₀ j r) : r.ruleName = j₀.rule.name := by
  obtain ⟨r₀, _, hanswers, rfl⟩ := h.judged
  exact hanswers.ruleName

theorem severity (h : Origin e j₀ j r) : r.severity = j₀.rule.severity := by
  obtain ⟨r₀, _, hanswers, rfl⟩ := h.judged
  exact hanswers.severity

end Origin

/-- A fresh result is about its job; a served one was given to the same job in an earlier run. -/
structure Traced (past : List (Episode σ)) (j : Job) (r : Result) : Prop where
  fresh : r.cached = false → r.Answers j
  served : r.cached = true → ∃ e₀ ∈ past, ∃ j₀, Origin e₀ j₀ j r

/-- By induction on the runs before: what is served was reported in one of them, where it was fresh or
served in its turn. -/
theorem Chronicle.traced (h : Chronicle dir (later ++ e :: past) t) (hc : e.run.outcome = .ok c)
    (hj : j ∈ e.jobs) (hr : c.resultFor j.rule.id j.file = some r) :
    Traced past j r ∧ (r.cached = false → .finished j r ∈ e.run.history) := by
  induction hn : past.length using Nat.strong_induction_on generalizing later e past t c j r with
  | _ n ih =>
    obtain ⟨hpast, he⟩ := h.before
    obtain ⟨d, hremembers, hkeeps⟩ := hpast.remembers
    obtain ⟨p, fan, hjudged⟩ := he.possible.judged hc
    have hrun : Continues dir past d e c p fan := ⟨hremembers, hkeeps, he, hc, hjudged⟩
    rw [hrun.jobs_eq] at hj
    obtain ⟨r', hr', hgave⟩ := hrun.resultFor hj
    cases hr'.symm.trans hr
    rcases hgave with hserved | ⟨_, hfresh⟩
    · obtain ⟨_, hstored⟩ := hrun.mem_served.mp hserved
      obtain ⟨l, hmatched⟩ := hremembers.matched (hrun.isRuleId hj) hstored
      obtain ⟨c', r₀, hc', hr₀, rfl⟩ := hmatched.result
      obtain ⟨hmem, hjob⟩ := latest?_mem hmatched.latest
      obtain ⟨hid, hfile⟩ := latest?_names hmatched.latest
      have hsame : l.2.Same j := ⟨hid, hfile, hmatched.fileHash, hmatched.promptHash⟩
      obtain ⟨newer, older, rfl⟩ := List.append_of_mem hmem
      rw [← hid, ← hfile] at hr₀
      have hlt : older.length < n := by
        rw [← hn, List.length_append, List.length_cons]
        omega
      obtain ⟨htraced, hfinished⟩ := ih _ hlt hpast hc' hjob hr₀ rfl
      refine ⟨⟨fun hcached => Bool.noConfusion hcached, fun _ => ?_⟩,
        fun hcached => Bool.noConfusion hcached⟩
      cases hcached : r₀.cached with
      | false => exact ⟨l.1, hmem, l.2, hjob, hsame, r₀, hfinished hcached, htraced.fresh hcached, rfl⟩
      | true =>
        obtain ⟨e₀, he₀, j₀, horigin⟩ := htraced.served hcached
        obtain ⟨r₁, hr₁, hanswers, rfl⟩ := horigin.judged
        refine ⟨e₀, ?_, j₀, horigin.job, horigin.same.trans hsame, r₁, hr₁, hanswers, rfl⟩
        exact List.mem_append_right _ (List.mem_cons_of_mem _ he₀)
    · have hanswers := hrun.answers hfresh
      refine ⟨⟨fun _ => hanswers, fun hcached => ?_⟩, fun _ => hrun.finished hfresh⟩
      have hnot := hanswers.fresh.symm.trans hcached
      cases hnot

/-- Rules keep their names and severities from run to run, or change with them what fingerprints tell
apart. -/
def Steady (episodes : List (Episode σ)) : Prop :=
  ∀ e ∈ episodes, ∀ e' ∈ episodes, ∀ j ∈ e.jobs, ∀ j' ∈ e'.jobs, j.Same j' →
    j.rule.name = j'.rule.name ∧ j.rule.severity = j'.rule.severity

structure Current (j : Job) (r : Result) : Prop where
  ruleName : r.ruleName = j.rule.name
  severity : r.severity = j.rule.severity

theorem Traced.current (h : Traced past j r) (hs : Steady (e :: past)) (hj : j ∈ e.jobs) :
    Current j r := by
  cases hcached : r.cached with
  | false =>
    have hanswers := h.fresh hcached
    exact ⟨hanswers.ruleName, hanswers.severity⟩
  | true =>
    obtain ⟨e₀, he₀, j₀, horigin⟩ := h.served hcached
    obtain ⟨hname, hseverity⟩ :=
      hs e₀ (List.mem_cons_of_mem _ he₀) e List.mem_cons_self j₀ horigin.job j hj horigin.same
    exact ⟨horigin.ruleName.trans hname, horigin.severity.trans hseverity⟩

theorem Run.Judged.code_eq_one_iff {g : Setting σ} {store : Cache.Store} {paths : List String}
    {world : World σ} {run : Run σ} {p : Plan} {fan : Fanout σ}
    (h : Judged g store paths world run c p fan) : c.code.toNat = 1 ↔
      ∃ r ∈ c.results, r.passed = false ∧ r.severity = .error ∨ r.apiError = true := by
  rw [h.code_toNat]
  simp only [ite_eq_left_iff, Nat.zero_ne_one, imp_false, not_not, List.any_eq_true, Bool.or_eq_true,
    Bool.and_eq_true, Bool.not_eq_true', beq_iff_eq]

/-- What a completed run reports of names and severities. -/
structure Labels (past : List (Episode σ)) (e : Episode σ) (c : Completed)
    (listed : List (Job × Result)) : Prop where
  jobs : (listed.map (·.1)).Perm e.jobs
  results : listed.map (·.2) = c.results
  traced : ∀ q ∈ listed, Traced past q.1 q.2
  /-- While the rules keep their names and severities, all results carry the current ones, and the exit
  code goes by these. -/
  current : Steady (e :: past) → ∀ q ∈ listed, Current q.1 q.2
  code : Steady (e :: past) → (c.code.toNat = 1 ↔ ∃ q ∈ listed,
    q.2.passed = false ∧ q.1.rule.severity = .error ∨ q.2.apiError = true)

/-- In every completed run each job has one result, which carries the name and the severity of the rule
as it was when the job was judged: in this run, or in the earlier run whose result is served. -/
theorem Chronicle.labels (h : Chronicle dir episodes t) : ∀ later e past,
    episodes = later ++ e :: past → ∀ c, e.run.outcome = .ok c → ∃ listed, Labels past e c listed := by
  rintro later e past rfl c hc
  obtain ⟨hpast, he⟩ := h.before
  obtain ⟨d, hremembers, hkeeps⟩ := hpast.remembers
  obtain ⟨p, fan, hjudged⟩ := he.possible.judged hc
  have hrun : Continues dir past d e c p fan := ⟨hremembers, hkeeps, he, hc, hjudged⟩
  obtain ⟨listed, hjobs, hresults, hlisted⟩ := hrun.listed
  rw [← hrun.jobs_eq] at hjobs
  have hjob : ∀ q ∈ listed, q.1 ∈ e.jobs := by
    intro q hq
    exact hjobs.mem_iff.mp (List.mem_map_of_mem hq)
  have htraced : ∀ q ∈ listed, Traced past q.1 q.2 := by
    intro q hq
    exact (h.traced hc (hjob q hq) (hlisted q hq).1).1
  have hcurrent : Steady (e :: past) → ∀ q ∈ listed, Current q.1 q.2 := by
    intro hs q hq
    exact (htraced q hq).current hs (hjob q hq)
  refine ⟨listed, hjobs, hresults, htraced, hcurrent, fun hs => ?_⟩
  rw [hjudged.code_eq_one_iff, ← hresults]
  constructor
  · rintro ⟨r, hr, hfailed⟩
    obtain ⟨q, hq, rfl⟩ := List.mem_map.mp hr
    rw [(hcurrent hs q hq).severity] at hfailed
    exact ⟨q, hq, hfailed⟩
  · rintro ⟨q, hq, hfailed⟩
    rw [← (hcurrent hs q hq).severity] at hfailed
    exact ⟨q.2, List.mem_map_of_mem hq, hfailed⟩

namespace Sample

open Cache.Sample

/-- A rule that keeps its severity between two runs. -/
theorem labels_twice : ∃ t t',
    Chronicle (store {}).dir [episode .error t, episode .error bare] t' ∧
    Steady [episode .error t, episode .error bare] ∧ ∃ c listed,
      (episode .error t).run.outcome = .ok c ∧
      Labels [episode .error bare] (episode .error t) c listed ∧ c.code.toNat = 1 := by
  obtain ⟨durationMs, h⟩ := exists_twice .error .error
  have hsteady : Steady [episode .error (kept (filled .error {} durationMs)), episode .error bare] := by
    have hjobs : ∀ e ∈ [episode .error (kept (filled .error {} durationMs)), episode .error bare],
        ∀ j ∈ e.jobs, j = job .error := by
      simp [h.before, h.jobs]
    intro e he e' he' j hj j' hj' _
    rw [hjobs e he j hj, hjobs e' he' j' hj']
    exact ⟨rfl, rfl⟩
  obtain ⟨c, hc, hresults⟩ := h.served
  obtain ⟨listed, hlabels⟩ := h.chronicle.labels [] _ _ rfl c hc
  refine ⟨_, _, h.chronicle, hsteady, c, listed, hc, hlabels, ?_⟩
  obtain ⟨p, fan, hjudged⟩ := (episode_valid .error _).possible.judged hc
  rw [hjudged.code_eq_one_iff, hresults]
  exact ⟨_, List.mem_singleton.mpr rfl, .inl ⟨rfl, rfl⟩⟩

/-- A rule is made an error after a run in which it was a warning: the next run serves the failure as a
warning, and exits with zero. -/
theorem stale_severity : ∃ t t',
    Chronicle (store {}).dir [episode .error t, episode .warning bare] t' ∧
    (episode .error t).jobs = [job .error] ∧ ∃ c r, (episode .error t).run.outcome = .ok c ∧
      c.results = [r] ∧ r.passed = false ∧ r.severity = .warning ∧
      (job .error).rule.severity = .error ∧ c.code.toNat ≠ 1 := by
  obtain ⟨durationMs, h⟩ := exists_twice .warning .error
  obtain ⟨c, hc, hresults⟩ := h.served
  refine ⟨_, _, h.chronicle, h.jobs, c, _, hc, hresults, rfl, rfl, rfl, ?_⟩
  obtain ⟨p, fan, hjudged⟩ := (episode_valid .error _).possible.judged hc
  rw [Ne, hjudged.code_eq_one_iff, hresults]
  rintro ⟨r, hr, hfailed⟩
  rw [List.mem_singleton.mp hr] at hfailed
  rcases hfailed with ⟨_, hseverity⟩ | hapi
  · cases hseverity
  · cases hapi

end Sample

end JudgedLint.Lint
