import JudgedLint.Proofs.Lint.Atomic
import JudgedLint.Proofs.Lint.Completeness

/-! Runs one after the other with one cache directory. Between them files, rules and settings may
change, and only the cache file is left alone; runs may fail. A job is served from the cache just if
the latest completed run before that had the job saw the same text and the same prompt, and it is
served the result of that run. -/
namespace JudgedLint.Lint

open Cache (Store)
open Text (isWellFormed utf8Encode)
open Workspace (Path Tree)

def Completed.resultFor (c : Completed) (ruleId file : String) : Option Result :=
  c.results.find? fun r => r.ruleId == ruleId && r.file == file

theorem find?_of_forall₂ {P : Job → Result → Prop} {jobs : List Job} {rs : List Result}
    (h : List.Forall₂ P jobs rs) (hP : ∀ j r, P j r → r.ruleId = j.rule.id ∧ r.file = j.file)
    (hn : (jobs.map fun j => (j.rule.id, j.file)).Nodup) {j : Job} {r : Result}
    (hq : (j, r) ∈ jobs.zip rs) :
    rs.find? (fun r => r.ruleId == j.rule.id && r.file == j.file) = some r := by
  induction h with
  | nil => cases hq
  | @cons j' r' jobs rs hr _ ih =>
    obtain ⟨hnew, hrest⟩ := List.nodup_cons.mp hn
    obtain ⟨hid, hfile⟩ := hP j' r' hr
    rcases List.mem_cons.mp hq with heq | hq
    · cases heq
      simp [hid, hfile]
    · have hne : (r'.ruleId == j.rule.id && r'.file == j.file) = false := by
        rw [hid, hfile]
        refine Bool.eq_false_iff.mpr fun heq => hnew ?_
        simp only [Bool.and_eq_true, beq_iff_eq] at heq
        exact List.mem_map.mpr ⟨j, (List.of_mem_zip hq).1, Prod.ext heq.1.symm heq.2.symm⟩
      rw [List.find?_cons, hne]
      exact ih hrest hq

theorem hits_jobs (d : Cache.Document) (jobs : List Job) :
    (hits d jobs).map (·.1) = jobs.filter (·.isStored d) := by
  induction jobs with
  | nil => rfl
  | cons j rest ih =>
    simp only [hits, cachedResult, List.filterMap_cons, List.filter_cons, Job.isStored] at ih ⊢
    cases hl : d.lookup j.rule.id j.file j.fileHash j.promptHash with
    | none => simpa using ih
    | some stored => simpa using ih

theorem mem_hits {d : Cache.Document} {jobs : List Job} {j : Job} {r : Result} :
    (j, r) ∈ hits d jobs ↔ j ∈ jobs ∧ r.IsStored d j := by
  simp only [hits, cachedResult, List.mem_filterMap, Option.map_eq_some_iff, Result.IsStored]
  constructor
  · rintro ⟨j', hj', _, ⟨stored, hl, rfl⟩, heq⟩
    cases heq
    exact ⟨hj', stored, hl, rfl⟩
  · rintro ⟨hj, stored, hl, rfl⟩
    exact ⟨j, hj, _, ⟨stored, hl, rfl⟩, rfl⟩

namespace Run

variable {σ : Type} {g : Setting σ} {store : Store} {paths : List String} {world : World σ}
  {r : Run σ} {c : Completed} {p : Plan} {fan : Fanout σ}

def Gave (p : Plan) (fan : Fanout σ) (j : Job) (r : Result) : Prop :=
  (j, r) ∈ p.served ∨ j ∈ p.unjudged ∧ (j, r) ∈ fan.history.judged

/-- What a completed run reports, job by job: for each a stored result, or the one it was judged
with. -/
theorem Judged.listed (h : Judged g store paths world r c p fan) (hw : WellNamed g.rules)
    (hnames : ∀ q ∈ p.served, q.2.ruleId = q.1.rule.id ∧ q.2.file = q.1.file) :
    ∃ listed : List (Job × Result), (listed.map (·.1)).Perm p.jobs ∧ listed.map (·.2) = c.results ∧
      ∀ q ∈ listed, c.resultFor q.1.rule.id q.1.file = some q.2 ∧ Gave p fan q.1 q.2 := by
  obtain ⟨done, hdone, _⟩ := h.reaches.settled h.ended h.failure
  have hplanned := plan_planned h.plan
  have hserved : List.Forall₂ (Gave p fan) (p.served.map (·.1)) (p.served.map (·.2)) := by
    rw [List.forall₂_map_left_iff, List.forall₂_map_right_iff, List.forall₂_same]
    exact fun q hq => .inl hq
  have hfresh : List.Forall₂ (Gave p fan) p.unjudged
      (Fanout.inOrder fan.results p.unjudged.length) := by
    refine hdone.forall₂_inOrder (P := Gave p fan) fun d hd => .inr ⟨?_, ?_⟩
    · refine hdone.judged_perm.mem_iff.mp ?_
      rw [hdone.judged, List.map_map]
      exact List.mem_map.mpr ⟨d, hd, rfl⟩
    · rw [hdone.judged]
      exact List.mem_map.mpr ⟨d, hd, rfl⟩
  have hperm : (p.served.map (·.1) ++ p.unjudged).Perm p.jobs := by
    rw [Plan.served, Plan.unjudged, hits_jobs, misses_eq]
    exact List.filter_append_perm _ _
  -- No two jobs share rule and file, so a result that is looked up by them is that of the job.
  have hnodup : ((p.served.map (·.1) ++ p.unjudged).map fun j => (j.rule.id, j.file)).Nodup := by
    have hpairs := nodup_pairs paths hw.distinct
    rw [← hplanned.pairs, List.map_map] at hpairs
    exact (hperm.map _).nodup_iff.mpr hpairs
  have hnamed : ∀ j r, Gave p fan j r → r.ruleId = j.rule.id ∧ r.file = j.file := by
    intro j r hr
    rcases hr with hr | ⟨_, hr⟩
    · exact hnames _ hr
    · have hanswers := (hdone.mem_judged hr).1
      exact ⟨hanswers.ruleId, hanswers.file⟩
  have hall := List.rel_append hserved hfresh
  have hlength := hall.length_eq
  refine ⟨(p.served.map (·.1) ++ p.unjudged).zip c.results, ?_, ?_, ?_⟩
  · rw [List.map_fst_zip (by rw [h.results]; exact hlength.le)]
    exact hperm
  · rw [List.map_snd_zip (by rw [h.results]; exact hlength.ge)]
  · rintro ⟨j, r⟩ hq
    rw [h.results] at hq
    refine ⟨?_, (List.forall₂_iff_zip.mp hall).2 hq⟩
    rw [Completed.resultFor, h.results]
    exact find?_of_forall₂ hall hnamed hnodup hq

end Run

structure Episode (σ : Type) where
  setting : Setting σ
  store : Store
  paths : List String
  before : World σ
  run : Run σ

variable {σ : Type} {dir : Path} {t t' : Tree} {e : Episode σ} {past later episodes : List (Episode σ)}

namespace Episode

def jobs (e : Episode σ) : List Job :=
  match Run.plan e.setting e.store e.paths e.before.tree with
  | .ok p => p.jobs
  | .error _ => []

/-- The job for a rule and a file, if the run had one and completed. -/
def job? (e : Episode σ) (ruleId file : String) : Option Job :=
  match e.run.outcome with
  | .ok _ => e.jobs.find? fun j => j.rule.id == ruleId && j.file == file
  | .error _ => none

/-- A possible run with the cache directory, rules as a configuration holds them, and a clock that
shows moments of the calendar. -/
structure Valid (dir : Path) (e : Episode σ) : Prop where
  possible : Run.Possible e.setting e.store e.paths e.before e.run
  dir : e.store.dir = dir
  rules : WellNamed e.setting.rules
  stamp : ∀ n, (e.setting.stamp n).IsStamp

end Episode

structure Spares (dir : Path) (t t' : Tree) : Prop where
  holds : ∀ content, Store.Holds ⟨dir, {}⟩ t content → Store.Holds ⟨dir, {}⟩ t' content
  absent : Store.Absent ⟨dir, {}⟩ t → Store.Absent ⟨dir, {}⟩ t'

/-- Runs with one cache directory, the latest first, and the files as they are then. At the start
there is no cache file, and none but the runs write it. -/
inductive Chronicle (dir : Path) : List (Episode σ) → Tree → Prop where
  | start {t : Tree} (h : Store.Absent ⟨dir, {}⟩ t) : Chronicle dir [] t
  | changed {episodes : List (Episode σ)} {t t' : Tree} (h : Chronicle dir episodes t)
      (hs : Spares dir t t') : Chronicle dir episodes t'
  | run {past : List (Episode σ)} {e : Episode σ} (h : Chronicle dir past e.before.tree)
      (he : e.Valid dir) : Chronicle dir (e :: past) e.run.world.tree

/-- The latest completed run that had a job for a rule and a file, with that job. -/
def latest? (past : List (Episode σ)) (ruleId file : String) : Option (Episode σ × Job) :=
  past.findSome? fun e => (e.job? ruleId file).map (e, ·)

/-- An entry as a completed run left it for a job: the fingerprints of the job, and the result that
the run reported. -/
def Episode.Left (e : Episode σ) (j : Job) (x : Cache.Entry) : Prop :=
  ∃ c r timestamp, e.run.outcome = .ok c ∧ c.resultFor j.rule.id j.file = some r ∧
    x = j.entry { r with cached := false } timestamp

/-- A document that holds, for each rule and file, what the latest completed run left. -/
structure Remembers (past : List (Episode σ)) (d : Cache.Document) : Prop where
  lasting : d.Lasting
  keys : ∀ x ∈ d.entries, isWellFormed x.1 = true
  entries : ∀ ruleId file, isRuleId ruleId = true → Option.Rel (fun x l => l.1.Left l.2 x)
    (d.entries.lookup (Cache.key ruleId file)) (latest? past ruleId file)

/-- The cache file holds a document; without a file there is nothing to hold. -/
def Keeps (dir : Path) (t : Tree) (d : Cache.Document) : Prop :=
  Store.Absent ⟨dir, {}⟩ t ∧ d = {} ∨
    Store.Holds ⟨dir, {}⟩ t (utf8Encode (Store.encode d)) ∧ d.unwritable? = none

theorem Keeps.spares {d : Cache.Document} (h : Keeps dir t d) (hs : Spares dir t t') :
    Keeps dir t' d := by
  rcases h with ⟨habsent, hempty⟩ | ⟨hholds, hw⟩
  · exact .inl ⟨hs.absent habsent, hempty⟩
  · exact .inr ⟨hs.holds _ hholds, hw⟩

theorem Keeps.load {d : Cache.Document} {store loaded : Store} {notes : List Log.Record}
    (h : Keeps dir t d) (hr : Remembers past d) (hdir : store.dir = dir)
    (hl : store.load t = .ok (loaded, notes)) : loaded.document = d := by
  rcases h with ⟨habsent, rfl⟩ | ⟨hholds, hw⟩
  · rw [Store.load_of_absent (habsent.of_dir hdir.symm) hl]
  · have hback : d.readBack = d := (Cache.Document.readBack_eq_self_iff hr.lasting).mpr hr.keys
    have hdecode := Cache.decode_encode hr.lasting hw
    rw [hback] at hdecode
    rw [Store.load_of_holds (hholds.of_dir hdir.symm) hdecode hl]

theorem Keeps.regular {d : Cache.Document} {store : Store} (h : Keeps dir t d) (hdir : store.dir = dir) :
    store.Regular t := by
  rcases h with ⟨habsent, _⟩ | ⟨hholds, _⟩
  · exact .inl (habsent.of_dir hdir.symm)
  · exact .inr ⟨_, hholds.of_dir hdir.symm⟩

theorem Episode.Valid.spares (h : e.Valid dir) {f : Failure} (hf : e.run.outcome = .error f) :
    Spares dir e.before.tree e.run.world.tree := by
  have hundone := h.possible.undone h.rules hf
  refine ⟨fun content hholds => ?_, fun habsent => ?_⟩
  · exact (hundone.holds content (hholds.of_dir h.dir.symm)).of_dir h.dir
  · exact (hundone.absent (habsent.of_dir h.dir.symm)).of_dir h.dir

theorem latest?_cons (e : Episode σ) (past : List (Episode σ)) (ruleId file : String) :
    latest? (e :: past) ruleId file =
      ((e.job? ruleId file).map (e, ·)).or (latest? past ruleId file) := by
  rw [latest?, List.findSome?_cons]
  cases e.job? ruleId file <;> rfl

theorem Completed.resultFor_names {c : Completed} {ruleId file : String} {r : Result}
    (h : c.resultFor ruleId file = some r) : r.ruleId = ruleId ∧ r.file = file := by
  have hnames := List.find?_some h
  simpa using hnames

theorem Episode.job?_names {ruleId file : String} {j : Job} (h : e.job? ruleId file = some j) :
    j ∈ e.jobs ∧ j.rule.id = ruleId ∧ j.file = file := by
  rw [job?] at h
  split at h
  · have hnames := List.find?_some h
    simp only [Bool.and_eq_true, beq_iff_eq] at hnames
    exact ⟨List.mem_of_find?_eq_some h, hnames.1, hnames.2⟩
  · cases h

theorem latest?_mem {ruleId file : String} {l : Episode σ × Job}
    (h : latest? past ruleId file = some l) : l.1 ∈ past ∧ l.2 ∈ l.1.jobs := by
  obtain ⟨e, he, hl⟩ := List.exists_of_findSome?_eq_some h
  obtain ⟨j, hj, rfl⟩ := Option.map_eq_some_iff.mp hl
  exact ⟨he, (Episode.job?_names hj).1⟩

theorem latest?_names {ruleId file : String} {l : Episode σ × Job}
    (h : latest? past ruleId file = some l) : l.2.rule.id = ruleId ∧ l.2.file = file := by
  obtain ⟨e, _, hl⟩ := List.exists_of_findSome?_eq_some h
  obtain ⟨j, hj, rfl⟩ := Option.map_eq_some_iff.mp hl
  exact (Episode.job?_names hj).2

theorem Episode.job_hashes {j : Job} (hj : j ∈ e.jobs) :
    j.fileHash = Digest.ofText j.content ∧ j.promptHash = Digest.ofText j.rule.prompt := by
  rw [jobs] at hj
  split at hj
  · next p hp =>
    have hjob := (Run.plan_planned hp).job j hj
    exact ⟨congrArg Job.fileHash hjob, congrArg Job.promptHash hjob⟩
  · cases hj

/-- The latest completed run with a job for the rule and the file of another, and what it reported:
the same fingerprints, and a result that was not served differently. -/
structure Matched (past : List (Episode σ)) (j : Job) (r : Result) (l : Episode σ × Job) : Prop where
  latest : latest? past j.rule.id j.file = some l
  fileHash : l.2.fileHash = j.fileHash
  promptHash : l.2.promptHash = j.promptHash
  result : ∃ c r', l.1.run.outcome = .ok c ∧ c.resultFor j.rule.id j.file = some r' ∧
    r = { r' with cached := true }

namespace Remembers

variable {d : Cache.Document} {j : Job} {r : Result}

theorem found (h : Remembers past d) (hid : isRuleId j.rule.id = true) {x : Cache.Entry}
    (hx : d.entries.lookup j.key = some x) :
    ∃ l, latest? past j.rule.id j.file = some l ∧ l.1.Left l.2 x := by
  have hrel := h.entries j.rule.id j.file hid
  rw [Job.key] at hx
  rw [hx] at hrel
  cases hl : latest? past j.rule.id j.file with
  | none =>
    rw [hl] at hrel
    cases hrel
  | some l =>
    rw [hl] at hrel
    cases hrel with
    | some hleft => exact ⟨l, rfl, hleft⟩

theorem matched (h : Remembers past d) (hid : isRuleId j.rule.id = true) (hs : r.IsStored d j) :
    ∃ l, Matched past j r l := by
  obtain ⟨stored, hlookup, rfl⟩ := hs
  obtain ⟨x, hx, hfile, hprompt, rfl⟩ := Cache.Document.lookup_eq_some.mp hlookup
  obtain ⟨l, hl, c, r', timestamp, hout, hfor, rfl⟩ := h.found hid hx
  obtain ⟨hid', hfile'⟩ := latest?_names hl
  rw [hid', hfile'] at hfor
  exact ⟨l, hl, hfile, hprompt, c, r', hout, hfor, rfl⟩

theorem isStored (h : Remembers past d) (hid : isRuleId j.rule.id = true) {l : Episode σ × Job}
    (hl : latest? past j.rule.id j.file = some l) (hfile : l.2.fileHash = j.fileHash)
    (hprompt : l.2.promptHash = j.promptHash) : j.isStored d = true := by
  have hrel := h.entries j.rule.id j.file hid
  rw [hl] at hrel
  cases hx : d.entries.lookup (Cache.key j.rule.id j.file) with
  | none =>
    rw [hx] at hrel
    cases hrel
  | some x =>
    rw [hx] at hrel
    cases hrel with
    | some hleft =>
      obtain ⟨c, r', timestamp, _, _, rfl⟩ := hleft
      rw [Job.isStored, Cache.Document.lookup_eq_some.mpr ⟨_, hx, hfile, hprompt, rfl⟩]
      rfl

end Remembers

/-- A run that completes among others: what it loaded, planned and judged. -/
structure Continues (dir : Path) (past : List (Episode σ)) (d : Cache.Document) (e : Episode σ)
    (c : Completed) (p : Run.Plan) (fan : Fanout σ) : Prop where
  remembers : Remembers past d
  keeps : Keeps dir e.before.tree d
  valid : e.Valid dir
  outcome : e.run.outcome = .ok c
  judged : Run.Judged e.setting e.store e.paths e.before e.run c p fan

namespace Continues

variable {d : Cache.Document} {c : Completed} {p : Run.Plan} {fan : Fanout σ} {j : Job} {r : Result}

theorem planned (h : Continues dir past d e c p fan) :
    Run.Planned e.setting e.store e.paths e.before.tree p :=
  Run.plan_planned h.judged.plan

theorem jobs_eq (h : Continues dir past d e c p fan) : e.jobs = p.jobs := by
  rw [Episode.jobs, h.judged.plan]

theorem document (h : Continues dir past d e c p fan) : p.store.document = d := by
  obtain ⟨notes, hload⟩ := h.planned.loaded
  exact h.keeps.load h.remembers h.valid.dir hload

theorem isRuleId (h : Continues dir past d e c p fan) (hj : j ∈ p.jobs) : isRuleId j.rule.id = true :=
  h.planned.isRuleId h.valid.rules hj

theorem mem_served (h : Continues dir past d e c p fan) :
    (j, r) ∈ p.served ↔ j ∈ p.jobs ∧ r.IsStored d j := by
  rw [Run.Plan.served, h.document, mem_hits]

theorem listed (h : Continues dir past d e c p fan) :
    ∃ listed : List (Job × Result), (listed.map (·.1)).Perm p.jobs ∧ listed.map (·.2) = c.results ∧
      ∀ q ∈ listed, c.resultFor q.1.rule.id q.1.file = some q.2 ∧ Run.Gave p fan q.1 q.2 := by
  refine h.judged.listed h.valid.rules ?_
  rintro ⟨j', r⟩ hq
  obtain ⟨hj', hs⟩ := h.mem_served.mp hq
  obtain ⟨l, _, _, _, c', r', _, hfor, rfl⟩ := h.remembers.matched (h.isRuleId hj') hs
  have hnames := Completed.resultFor_names hfor
  exact hnames

theorem resultFor (h : Continues dir past d e c p fan) (hj : j ∈ p.jobs) :
    ∃ r, c.resultFor j.rule.id j.file = some r ∧ Run.Gave p fan j r := by
  obtain ⟨listed, hjobs, _, hlisted⟩ := h.listed
  obtain ⟨q, hq, rfl⟩ := List.mem_map.mp (hjobs.mem_iff.mpr hj)
  exact ⟨q.2, hlisted q hq⟩

theorem mem_unjudged (h : Continues dir past d e c p fan) :
    j ∈ p.unjudged ↔ j ∈ p.jobs ∧ j.isStored d = false := by
  rw [Run.Plan.unjudged, h.document, misses_eq, List.mem_filter, Bool.not_eq_true']

theorem unjudged_of_judged (h : Continues dir past d e c p fan) {q : Job × Result}
    (hq : q ∈ fan.history.judged) : q.1 ∈ p.unjudged := by
  obtain ⟨done, hdone, _⟩ := h.judged.reaches.settled h.judged.ended h.judged.failure
  exact hdone.judged_perm.mem_iff.mp (List.mem_map_of_mem hq)

theorem answers (h : Continues dir past d e c p fan) {q : Job × Result}
    (hq : q ∈ fan.history.judged) : q.2.Answers q.1 := by
  obtain ⟨done, hdone, _⟩ := h.judged.reaches.settled h.judged.ended h.judged.failure
  exact (hdone.mem_judged hq).1

theorem finished (h : Continues dir past d e c p fan) (hj : (j, r) ∈ fan.history.judged) :
    .finished j r ∈ e.run.history := by
  obtain ⟨before, after, hhistory⟩ := h.judged.history
  rw [hhistory]
  simp only [List.mem_append]
  exact .inl (.inl (.inl (.inr (History.mem_judged.mp hj))))

theorem key_notMem (h : Continues dir past d e c p fan) (hj : j ∈ p.jobs) (hs : j.isStored d = true) :
    j.key ∉ fan.history.judged.map (·.1.key) := by
  intro hk
  obtain ⟨q, hq, hkey⟩ := List.mem_map.mp hk
  obtain ⟨hjob, hmiss⟩ := h.mem_unjudged.mp (h.unjudged_of_judged hq)
  have heq := List.inj_on_of_nodup_map (h.planned.nodup_keys h.valid.rules) hjob hj hkey
  rw [heq, hs] at hmiss
  cases hmiss

theorem left (h : Continues dir past d e c p fan) {d' : Cache.Document}
    (hd' : Filled e.setting.stamp d fan.history.judged d') (hj : j ∈ p.jobs)
    (hfor : c.resultFor j.rule.id j.file = some r) (hgave : Run.Gave p fan j r) :
    ∃ x, d'.entries.lookup j.key = some x ∧ e.Left j x := by
  rcases hgave with hserved | ⟨_, hjudged⟩
  · obtain ⟨_, stored, hlookup, rfl⟩ := h.mem_served.mp hserved
    have hstored : j.isStored d = true := by rw [Job.isStored, hlookup]; rfl
    obtain ⟨x, hx, hfile, hprompt, rfl⟩ := Cache.Document.lookup_eq_some.mp hlookup
    obtain ⟨l, hl, _, r', timestamp, _, _, rfl⟩ := h.remembers.found (h.isRuleId hj) hx
    refine ⟨_, (hd'.kept _ (h.key_notMem hj hstored)).trans hx, c, _, timestamp, h.outcome, hfor, ?_⟩
    obtain ⟨hid, _⟩ := latest?_names hl
    simp only [Job.entry] at hfile hprompt ⊢
    rw [hfile, hprompt, hid]
  · obtain ⟨n, hn⟩ := hd'.stored _ hjudged
    have hfresh := (h.answers hjudged).fresh
    refine ⟨_, hn, c, r, e.setting.stamp n, h.outcome, hfor, ?_⟩
    simp only [Job.entry]
    rw [← hfresh]

theorem remembers_cons (h : Continues dir past d e c p fan) {d' : Cache.Document}
    (hd' : Filled e.setting.stamp d fan.history.judged d') (hlasting : d'.Lasting)
    (hw : d'.unwritable? = none) : Remembers (e :: past) d' := by
  refine ⟨hlasting, ?_, ?_⟩
  · have hkeys := hd'.isWellFormed_key (fun q hq => h.answers hq) hw
    intro x hx
    rcases (hd'.mem_keys h.remembers.lasting.distinct).mp (List.mem_map_of_mem hx) with hk | hk
    · obtain ⟨q, hq, hkey⟩ := List.mem_map.mp hk
      rw [← hkey]
      exact hkeys q hq
    · obtain ⟨x', hx', hkey⟩ := List.mem_map.mp hk
      rw [← hkey]
      exact h.remembers.keys x' hx'
  · intro ruleId file hid
    rw [latest?_cons]
    cases hjob : e.job? ruleId file with
    | some j =>
      obtain ⟨hj, rfl, rfl⟩ := Episode.job?_names hjob
      rw [h.jobs_eq] at hj
      obtain ⟨r, hfor, hgave⟩ := h.resultFor hj
      obtain ⟨x, hx, hleft⟩ := h.left hd' hj hfor hgave
      rw [Job.key] at hx
      rw [hx]
      exact .some hleft
    | none =>
      have hnew : Cache.key ruleId file ∉ fan.history.judged.map (·.1.key) := by
        intro hk
        obtain ⟨q, hq, hkey⟩ := List.mem_map.mp hk
        have hj := (h.mem_unjudged.mp (h.unjudged_of_judged hq)).1
        obtain ⟨hid', hfile⟩ := Cache.key_injective (h.isRuleId hj) hid hkey
        rw [Episode.job?, h.outcome, h.jobs_eq] at hjob
        refine absurd (List.find?_eq_none.mp hjob q.1 hj) ?_
        simp [hid', hfile]
      rw [hd'.kept _ hnew]
      exact h.remembers.entries ruleId file hid

theorem saved (h : Continues dir past d e c p fan) :
    ∃ d', Filled e.setting.stamp d fan.history.judged d' ∧ Remembers (e :: past) d' ∧
      Keeps dir e.run.world.tree d' := by
  obtain ⟨hsaves, hlasting⟩ := h.judged.saves h.valid.rules h.valid.stamp
  have hfilled := h.judged.filled h.valid.rules
  rw [h.document] at hsaves hlasting hfilled
  obtain ⟨paved, place, hsaved⟩ := hsaves.saved
  refine ⟨_, hfilled, h.remembers_cons hfilled hlasting hsaved.writable, .inr ⟨?_, hsaved.writable⟩⟩
  exact (hsaves.holds (h.keeps.regular h.valid.dir)).of_dir h.valid.dir

end Continues

theorem Remembers.failed {d : Cache.Document} (h : Remembers past d) {f : Failure}
    (hf : e.run.outcome = .error f) : Remembers (e :: past) d := by
  have hjob : ∀ ruleId file, e.job? ruleId file = none := by
    intro ruleId file
    rw [Episode.job?, hf]
  refine ⟨h.lasting, h.keys, fun ruleId file hid => ?_⟩
  rw [latest?_cons, hjob]
  exact h.entries ruleId file hid

/-- At each time the cache file remembers the runs, and its document has what it has at the start, keeps
when a run fails, and still has when a run has stored its results. -/
theorem Chronicle.document {P : List (Episode σ) → Cache.Document → Prop}
    (h : Chronicle dir episodes t) (hstart : P [] {})
    (hfailed : ∀ past e d, P past d → P (e :: past) d)
    (hcompleted : ∀ past e d d' c p fan, Continues dir past d e c p fan →
      Filled e.setting.stamp d fan.history.judged d' → P past d → P (e :: past) d') :
    ∃ d, Remembers episodes d ∧ Keeps dir t d ∧ P episodes d := by
  induction h with
  | start h =>
    exact ⟨{}, ⟨Cache.lasting_empty, by simp, fun _ _ _ => .none⟩, .inl ⟨h, rfl⟩, hstart⟩
  | changed _ hs ih =>
    obtain ⟨d, hr, hk, hd⟩ := ih
    exact ⟨d, hr, hk.spares hs, hd⟩
  | @run past e _ he ih =>
    obtain ⟨d, hr, hk, hd⟩ := ih
    cases hout : e.run.outcome with
    | ok c =>
      obtain ⟨p, fan, hj⟩ := he.possible.judged hout
      have hrun : Continues dir past d e c p fan := ⟨hr, hk, he, hout, hj⟩
      obtain ⟨d', hfilled, hr', hk'⟩ := hrun.saved
      exact ⟨d', hr', hk', hcompleted past e d d' c p fan hrun hfilled hd⟩
    | error f => exact ⟨d, hr.failed hout, hk.spares (he.spares hout), hfailed past e d hd⟩

theorem Chronicle.remembers (h : Chronicle dir episodes t) :
    ∃ d, Remembers episodes d ∧ Keeps dir t d := by
  obtain ⟨d, hr, hk, _⟩ := h.document (P := fun _ _ => True) trivial (fun _ _ _ _ => trivial)
    fun _ _ _ _ _ _ _ _ _ _ => trivial
  exact ⟨d, hr, hk⟩

/-- No run can tell a different text or prompt by the same fingerprint. -/
def CollisionFree (episodes : List (Episode σ)) : Prop :=
  ∀ e ∈ episodes, ∀ e' ∈ episodes, ∀ j ∈ e.jobs, ∀ j' ∈ e'.jobs,
    (Digest.ofText j.content = Digest.ofText j'.content → j.content = j'.content) ∧
      (Digest.ofText j.rule.prompt = Digest.ofText j'.rule.prompt → j.rule.prompt = j'.rule.prompt)

/-- What a completed run reports for a job, given the runs before it. -/
structure Exact (past : List (Episode σ)) (e : Episode σ) (c : Completed) (j : Job) (r : Result) :
    Prop where
  reported : c.resultFor j.rule.id j.file = some r
  served : r.cached = true → .served j r ∈ e.run.history
  judged : r.cached = false → .finished j r ∈ e.run.history
  /-- It is served just if nothing has changed since the latest run that had the job. -/
  unchanged : r.cached = true ↔ ∃ l, latest? past j.rule.id j.file = some l ∧
    l.2.content = j.content ∧ l.2.rule.prompt = j.rule.prompt
  /-- What is served is what that run reported. -/
  same : r.cached = true → ∀ l, latest? past j.rule.id j.file = some l →
    ∃ c' r', l.1.run.outcome = .ok c' ∧ c'.resultFor j.rule.id j.file = some r' ∧
      r = { r' with cached := true }

theorem Chronicle.before (h : Chronicle dir (later ++ e :: past) t) :
    Chronicle dir past e.before.tree ∧ e.Valid dir := by
  generalize heq : later ++ e :: past = episodes at h
  induction h generalizing later with
  | start h => simp at heq
  | changed _ _ ih => exact ih heq
  | @run past' e' hpast he ih =>
    cases later with
    | nil =>
      cases heq
      exact ⟨hpast, he⟩
    | cons l rest =>
      cases heq
      exact ih rfl

theorem Chronicle.drop_failed (h : Chronicle dir (later ++ e :: past) t) {f : Failure}
    (hf : e.run.outcome = .error f) : Chronicle dir (later ++ past) t := by
  generalize heq : later ++ e :: past = episodes at h
  induction h generalizing later with
  | start h => simp at heq
  | changed _ hs ih => exact .changed (ih heq) hs
  | @run past' e' hpast he ih =>
    cases later with
    | nil =>
      cases heq
      exact .changed hpast (he.spares hf)
    | cons l rest =>
      cases heq
      exact .run (ih rfl) he

theorem Continues.exact {d : Cache.Document} {c : Completed} {p : Run.Plan} {fan : Fanout σ}
    (h : Continues dir past d e c p fan) (hfree : CollisionFree (e :: past)) {j : Job}
    (hj : j ∈ e.jobs) : ∃ r, Exact past e c j r := by
  obtain ⟨hfile, hprompt⟩ := Episode.job_hashes hj
  -- Without collisions the hashes that are compared speak for the text and the prompt.
  have hsame : ∀ l, latest? past j.rule.id j.file = some l →
      (l.2.fileHash = j.fileHash ∧ l.2.promptHash = j.promptHash ↔
        l.2.content = j.content ∧ l.2.rule.prompt = j.rule.prompt) := by
    intro l hl
    obtain ⟨hmem, hjob⟩ := latest?_mem hl
    obtain ⟨hfile', hprompt'⟩ := Episode.job_hashes hjob
    obtain ⟨hcontent, hrule⟩ := hfree l.1 (List.mem_cons_of_mem _ hmem) e List.mem_cons_self l.2 hjob j hj
    rw [hfile, hprompt, hfile', hprompt']
    exact ⟨fun heq => ⟨hcontent heq.1, hrule heq.2⟩, fun heq => ⟨congrArg _ heq.1, congrArg _ heq.2⟩⟩
  rw [h.jobs_eq] at hj
  obtain ⟨before, after, hhistory⟩ := h.judged.history
  obtain ⟨r, hfor, hgave⟩ := h.resultFor hj
  refine ⟨r, ?_⟩
  rcases hgave with hserved | ⟨hmiss, hjudged⟩
  · obtain ⟨_, hs⟩ := h.mem_served.mp hserved
    obtain ⟨l, hmatched⟩ := h.remembers.matched (h.isRuleId hj) hs
    have hcached : r.cached = true := by
      obtain ⟨_, _, rfl⟩ := hs
      rfl
    refine ⟨hfor, fun _ => ?_, fun hfresh => ?_, iff_of_true hcached ⟨l, hmatched.latest, ?_⟩, ?_⟩
    · obtain ⟨noted, noted', hp⟩ := h.planned.history
      rw [hhistory, hp]
      simp only [List.mem_append, List.mem_map]
      exact .inl (.inl (.inl (.inl (.inl (.inr ⟨_, hserved, rfl⟩)))))
    · rw [hcached] at hfresh
      cases hfresh
    · exact (hsame l hmatched.latest).mp ⟨hmatched.fileHash, hmatched.promptHash⟩
    · intro _ l' hl'
      cases hmatched.latest.symm.trans hl'
      exact hmatched.result
  · have hfresh : r.cached = false := (h.answers hjudged).fresh
    have hnot : ¬r.cached = true := by simp [hfresh]
    refine ⟨hfor, fun hcached => absurd hcached hnot, fun _ => ?_, iff_of_false hnot ?_,
      fun hcached => absurd hcached hnot⟩
    · exact h.finished hjudged
    · rintro ⟨l, hl, hcontent⟩
      obtain ⟨hfile, hprompt⟩ := (hsame l hl).mpr hcontent
      have hstored := h.remembers.isStored (h.isRuleId hj) hl hfile hprompt
      rw [(h.mem_unjudged.mp hmiss).2] at hstored
      cases hstored

namespace Sample

open Cache.Sample

variable (severity severity' : Severity)

def episode (t : Tree) : Episode Unit :=
  ⟨setting severity 1 0.5, store {}, ["a.py"], world t,
    Run.run (setting severity 1 0.5) (store {}) ["a.py"] (world t)⟩

theorem episode_valid (t : Tree) : (episode severity t).Valid (store {}).dir where
  possible := run_possible severity (Nat.le_refl 1) 0.5 t
  dir := rfl
  rules := rule_wellNamed severity
  stamp := fun _ => moment_isStamp

/-- The first run judges the job, and the second finds its result in the cache. -/
structure Twice (durationMs : Int) : Prop where
  short : Json.IsShort durationMs
  judged : ∃ c, (episode severity bare).run.outcome = .ok c
  before : (episode severity bare).jobs = [job severity]
  served : ∃ c, (episode severity' (kept (filled severity {} durationMs))).run.outcome = .ok c ∧
    c.results = [{ result severity durationMs with cached := true }]
  jobs : (episode severity' (kept (filled severity {} durationMs))).jobs = [job severity']
  chronicle : Chronicle (store {}).dir
    [episode severity' (kept (filled severity {} durationMs)), episode severity bare]
    (kept (filled severity {} durationMs))

theorem exists_twice : ∃ durationMs, Twice severity severity' durationMs := by
  obtain ⟨c, history, durationMs, stop, hrun, _, hs⟩ := run_bare severity (Nat.le_refl 1) 0.5
  obtain ⟨c', history', hrun', hresults⟩ := run_kept severity severity' 1 0.5 hs
  obtain ⟨notes, hload, _⟩ := load_cached (decode_filled severity hs)
  obtain ⟨opening, hplan⟩ := plan_eq severity 1 0.5 load_bare (fileText_source [])
  obtain ⟨opening', hplan'⟩ := plan_eq severity' 1 0.5 hload (fileText_source _)
  have hfirst := Chronicle.run (.start absent) (episode_valid severity bare)
  simp only [episode, hrun] at hfirst
  have hsecond := Chronicle.run (e := episode severity' (kept (filled severity {} durationMs))) hfirst
    (episode_valid severity' _)
  simp only [episode, hrun'] at hsecond
  refine ⟨durationMs, hs, ⟨c, ?_⟩, ?_, ⟨c', ?_, hresults⟩, ?_, ?_⟩
  · simp only [episode, hrun]
  · simp only [Episode.jobs, episode, world, hplan]
  · simp only [episode, hrun']
  · simp only [Episode.jobs, episode, world, kept, hplan']
  · simp only [episode, hrun, hrun']
    exact hsecond

variable {severity severity'}

theorem collisionFree_of_same {episodes : List (Episode Unit)}
    (h : ∀ e ∈ episodes, ∀ j ∈ e.jobs, j.content = "p" ∧ j.rule.prompt = "Do not print.") :
    CollisionFree episodes := by
  intro e he e' he' j hj j' hj'
  obtain ⟨hcontent, hprompt⟩ := h e he j hj
  obtain ⟨hcontent', hprompt'⟩ := h e' he' j' hj'
  rw [hcontent, hcontent', hprompt, hprompt']
  exact ⟨fun _ => rfl, fun _ => rfl⟩

theorem Twice.collisionFree {durationMs : Int} (h : Twice severity severity' durationMs) : CollisionFree
    [episode severity' (kept (filled severity {} durationMs)), episode severity bare] := by
  refine collisionFree_of_same ?_
  simp [h.before, h.jobs, job, rule, Job.of]

end Sample

end JudgedLint.Lint
