import JudgedLint.Proofs.Cache.Lasting
import JudgedLint.Proofs.Lint.Ending

/-! No job is lost, repeated or misplaced: a run that completes has one result for each path and each
rule that covers it, first the cache's, then those of the judging, both in the order of the plan;
and its summary and exit code count just these. -/
namespace JudgedLint.Lint

open Cache (Store)
open Workspace (Path Tree)

/-- The cache answers a job with a stored result, which is marked as cached. -/
def Result.IsStored (d : Cache.Document) (j : Job) (r : Result) : Prop :=
  ∃ stored, d.lookup j.rule.id j.file j.fileHash j.promptHash = some stored ∧
    r = { stored with cached := true }

def Job.isStored (d : Cache.Document) (j : Job) : Bool :=
  (d.lookup j.rule.id j.file j.fileHash j.promptHash).isSome

theorem hits_forall₂ (d : Cache.Document) (jobs : List Job) :
    List.Forall₂ (Result.IsStored d) (jobs.filter (·.isStored d)) ((hits d jobs).map (·.2)) := by
  induction jobs with
  | nil => exact .nil
  | cons j rest ih =>
    simp only [hits, cachedResult, List.filterMap_cons, List.filter_cons, Job.isStored] at ih ⊢
    cases hl : d.lookup j.rule.id j.file j.fileHash j.promptHash with
    | none => simpa using ih
    | some stored => exact .cons ⟨stored, hl, rfl⟩ ih

theorem misses_eq (d : Cache.Document) (jobs : List Job) :
    misses d jobs = jobs.filter (!·.isStored d) := by
  simp only [misses, cachedResult, Job.isStored, Option.isNone_map, Option.not_isSome]

/-- What the results of a run have to be, given the cache and the plan. -/
structure Complete (rules : List Rule) (paths : List String) (d : Cache.Document) (jobs : List Job)
    (c : Completed) : Prop where
  /-- One job for each path, where it first stands, and each rule that covers it. -/
  pairs : jobs.map (fun j => (j.file, j.rule)) = Lint.pairs rules paths
  /-- The jobs that the cache answers, then the others, both in order. -/
  results : ∃ served fresh, c.results = served ++ fresh ∧
    List.Forall₂ (Result.IsStored d) (jobs.filter (·.isStored d)) served ∧
    List.Forall₂ (fun j r => r.Answers j) (jobs.filter (!·.isStored d)) fresh
  totalFiles : c.summary.totalFiles =
    (paths.eraseDups.countP fun path => rules.any (·.covers path) : Nat)
  applied : c.summary.totalRulesApplied =
    ((paths.eraseDups.map fun path => (rules.filter (·.covers path)).length).sum : Nat)
  counted : c.summary.totalRulesApplied =
    c.summary.passed + c.summary.errors + c.summary.warnings
  cached : c.summary.cached = (jobs.countP (·.isStored d) : Nat)
  code : c.code.toNat =
    if c.results.any fun r => !r.passed && r.severity == .error || r.apiError then 1 else 0

theorem countP_severities (rs : List Result) :
    rs.length = rs.countP (·.passed) + rs.countP (fun r => !r.passed && r.severity == .error) +
      rs.countP (fun r => !r.passed && r.severity == .warning) := by
  induction rs with
  | nil => rfl
  | cons r rest ih =>
    simp only [List.length_cons, List.countP_cons, ih]
    cases r.passed <;> cases r.severity <;> simp <;> omega

theorem exitCode_toNat (rs : List Result) (files durationMs : Int) :
    (exitCode rs (.ofResults rs files durationMs)).toNat =
      if rs.any fun r => !r.passed && r.severity == .error || r.apiError then 1 else 0 := by
  have hcond : (decide (0 < (Summary.ofResults rs files durationMs).errors) ||
      rs.any (·.apiError)) = rs.any fun r => !r.passed && r.severity == .error || r.apiError := by
    rw [Bool.eq_iff_iff]
    simp only [Summary.ofResults, Bool.or_eq_true, decide_eq_true_iff, List.any_eq_true,
      Int.natCast_pos, List.countP_pos_iff]
    constructor
    · rintro (⟨r, hr, h⟩ | ⟨r, hr, h⟩)
      · exact ⟨r, hr, .inl h⟩
      · exact ⟨r, hr, .inr h⟩
    · rintro ⟨r, hr, h | h⟩
      · exact .inl ⟨r, hr, h⟩
      · exact .inr ⟨r, hr, h⟩
  rw [exitCode, hcond]
  split <;> rfl

theorem countP_stored {d : Cache.Document} {jobs : List Job} {rs : List Result}
    (h : List.Forall₂ (Result.IsStored d) jobs rs) : rs.countP (·.cached) = rs.length := by
  induction h with
  | nil => rfl
  | cons hr _ ih =>
    obtain ⟨stored, _, rfl⟩ := hr
    simp [ih]

theorem countP_fresh {jobs : List Job} {rs : List Result}
    (h : List.Forall₂ (fun j r => Result.Answers r j) jobs rs) : rs.countP (·.cached) = 0 := by
  induction h with
  | nil => rfl
  | cons hr _ ih => simp [ih, hr.fresh]

theorem length_pairs (rules : List Rule) (paths : List String) : (pairs rules paths).length =
    (paths.eraseDups.map fun path => (rules.filter (·.covers path)).length).sum := by
  simp [pairs, List.length_flatMap]

namespace Run

variable {σ : Type} {g : Setting σ} {store : Cache.Store} {paths : List String} {world : World σ}
  {r : Run σ} {c : Completed}

theorem Judged.code_toNat {p : Plan} {fan : Fanout σ} (h : Judged g store paths world r c p fan) :
    c.code.toNat =
      if c.results.any fun r => !r.passed && r.severity == .error || r.apiError then 1 else 0 := by
  obtain ⟨durationMs, hsummary⟩ := h.summary
  rw [h.code, hsummary, exitCode_toNat]

end Run

/-! ### Runs of one rule over one file -/

namespace Run

variable {σ : Type} {g : Setting σ} {store : Store} {paths : List String} {notes : List Log.Record}
  {t : Tree}

theorem finish_of_saved (p : Plan) (world : World σ) (fan : Fanout σ) (hf : fan.failure = none)
    (hs : (filled g p world.stored fan.history.judged).save world.tree = (.ok notes, t)) :
    ∃ c before after, finish g p world fan =
        ⟨.ok c, p.history ++ fan.history ++ noted g.runId before ++ [.reported c.results c.summary] ++
            noted g.runId after, p.jobs.length,
          ⟨t, fan.now, fan.source, world.stored + fan.history.judged.length⟩⟩ ∧
      c.results = results p fan := by
  unfold finish
  dsimp only
  rw [hf]
  dsimp only
  rw [hs]
  exact ⟨_, _, _, rfl, rfl⟩

/-- A run whose jobs are all in the cache completes if the cache can be saved, and leaves nothing new
but the saved file. -/
theorem run_of_served {p : Plan} (world : World σ) (hp : plan g store paths world.tree = .ok p)
    (hu : p.unjudged = []) (hsave : p.store.save world.tree = (.ok notes, t)) : ∃ c history,
      run g store paths world = ⟨.ok c, history, p.jobs.length, { world with tree := t }⟩ ∧
        c.results = p.served.map (·.2) := by
  have hfan : judging g p world = .start g.slots world.source world.now [] := by
    unfold judging
    rw [hu]
    unfold Fanout.run Fanout.steps
    rw [List.length_nil, Nat.zero_mul]
    rfl
  have hresults : results p (judging g p world) = p.served.map (·.2) := by
    rw [results, hu]
    exact List.append_nil _
  obtain ⟨c, before, after, hfinish, hc⟩ := finish_of_saved (g := g) p world
    (.start g.slots world.source world.now []) rfl hsave
  unfold run
  rw [hp]
  dsimp only
  rw [hfan, hfinish]
  exact ⟨c, _, rfl, by rw [hc, ← hfan, hresults]⟩

end Run

namespace Sample

open Cache.Sample

variable (severity : Severity)

def rule : Rule := ⟨"no_print", "No print", severity, "*.py", none, "Do not print.", none⟩

def answer : String := "\x7b\"pass\": false, \"message\": \"Prints.\"\x7d"

def verdict : Verdict := ⟨false, "Prints.", none⟩

/-- One rule, and a model that finds the file to fail. -/
def setting (slots : Nat) (latency : Float) : Setting Unit where
  judge := { client := ⟨"ollama", "Ollama", true⟩, defaultModel := "llama3", catalog := .default }
  model := ⟨fun _ _ => (⟨latency, .ok answer⟩, ())⟩
  rules := [rule severity]
  slots := slots
  runId := "run"
  stamp := fun _ => moment

def world (t : Tree) : World Unit := ⟨t, 0, (), 0⟩

def job : Job := .of (rule severity) "a.py" "p"

def result (durationMs : Int) : Result := Judge.result (job severity) verdict durationMs

def judged (slots : Nat) (latency stop : Float) : Fanout Unit :=
  ⟨[], [], slots, stop, (), [(0, result severity (Judge.milliseconds 0 stop))],
    [.called ((setting severity slots latency).judge.request "llama3" (job severity)),
      .answered (job severity) 1 (.ok answer),
      .finished (job severity) (result severity (Judge.milliseconds 0 stop))], none⟩

def filled (d : Cache.Document) (durationMs : Int) : Cache.Document :=
  d.store "no_print" "a.py" (job severity).fileHash (job severity).promptHash
    (result severity durationMs) moment

theorem rule_wellNamed : WellNamed [rule severity] := by
  constructor
  · intro r hr
    rw [List.mem_singleton.mp hr]
    change isRuleId "no_print" = true
    decide
  · exact List.nodup_singleton _

theorem ofReply_answer : Verdict.ofReply (.ok answer) = .ok verdict := by decide +kernel

theorem filled_writable {d : Cache.Document} (hw : d.unwritable? = none) (durationMs : Int) :
    (filled severity d durationMs).unwritable? = none := by
  have hplain : ∀ s ∈ ["no_print", "no_print", "No print", "a.py", "Prints."],
      Text.isWellFormed s = true := by decide
  refine Cache.Document.store_writable hw
    (List.forall_mem_cons.mpr ⟨?_, List.forall_mem_cons.mpr ⟨?_, hplain⟩⟩)
  · exact (Cache.isAscii_digest _).isWellFormed
  · exact (Cache.isAscii_digest _).isWellFormed

theorem filled_lasting {d : Cache.Document} (hd : d.Lasting) {durationMs : Int}
    (hs : Json.IsShort durationMs) : (filled severity d durationMs).Lasting := by
  refine hd.store ⟨?_, hs⟩ moment_isStamp
  intro n hn
  cases hn

theorem decode_filled {durationMs : Int} (hs : Json.IsShort durationMs) :
    Store.decode (Text.utf8Encode (Store.encode (filled severity {} durationMs))) =
      .ok (.ok (filled severity {} durationMs)) := by
  have hlasting := filled_lasting severity Cache.lasting_empty hs
  have hback : (filled severity {} durationMs).readBack = filled severity {} durationMs := by
    rw [Cache.Document.readBack_eq_self_iff hlasting]
    intro e he
    rw [List.mem_singleton.mp he]
    change Text.isWellFormed (Cache.key "no_print" "a.py") = true
    decide
  have hdecode := Cache.decode_encode hlasting (filled_writable severity rfl durationMs)
  rwa [hback] at hdecode

theorem lookup_filled (d : Cache.Document) (durationMs : Int) :
    (filled severity d durationMs).lookup "no_print" "a.py" (job severity).fileHash
      (job severity).promptHash = some (result severity durationMs) := by
  rw [Cache.Document.lookup_eq_some]
  exact ⟨_, Json.lookup_put_self _ _ _, rfl, rfl, rfl⟩

/-- The result of the job is served to a rule of the same id and prompt, whatever else the rule says. -/
theorem served_filled (r : Rule) (hid : r.id = "no_print") (hprompt : r.prompt = "Do not print.")
    (durationMs : Int) :
    hits (filled severity {} durationMs) [.of r "a.py" "p"] =
      [(.of r "a.py" "p", { result severity durationMs with cached := true })] ∧
    misses (filled severity {} durationMs) [.of r "a.py" "p"] = [] := by
  have hhit : cachedResult (filled severity {} durationMs) (.of r "a.py" "p") =
      some { result severity durationMs with cached := true } := by
    rw [cachedResult, Job.of, hid, hprompt]
    exact congrArg (Option.map _) (lookup_filled severity {} durationMs)
  rw [hits, List.filterMap_cons, misses, List.filter_singleton, hhit]
  exact ⟨rfl, rfl⟩

theorem fileText_source (rest : List (String × Workspace.Entry)) :
    fileText ⟨"/work", ("a.py", source) :: rest⟩ "a.py" = .ok "p" := by
  have hpath : Path.ofText "a.py" = ⟨"", ["a.py"]⟩ := by decide
  have hlocate : (Tree.mk "/work" (("a.py", source) :: rest)).locate ⟨"", ["a.py"]⟩ =
      .ok (.found ["a.py"] source) := by
    have hshort : ¬Workspace.isTooLong ⟨"", ["a.py"]⟩ = true := by decide
    have hname : ¬Workspace.longestName < "a.py".utf8ByteSize := by decide
    rw [Tree.locate, if_neg hshort, segments?_relative]
    simp [Tree.follow, hname, Workspace.childAt, source]
  have hread : (Tree.mk "/work" (("a.py", source) :: rest)).read ⟨"", ["a.py"]⟩ = .ok [112] := by
    simp [Tree.read, Workspace.withPath, Tree.entry, hlocate]
    rfl
  rw [fileText, hpath, hread]
  decide +kernel

section

variable {t : Tree} {d : Cache.Document} {notes : List Log.Record}

theorem plan_single {g : Setting Unit} {r : Rule} (hrules : g.rules = [r])
    (hmatched : matchFiles [r] ["a.py"] = .ok [("a.py", [r])])
    (hload : (store {}).load t = .ok (store d, notes)) (htext : fileText t "a.py" = .ok "p") :
    ∃ history, Run.plan g (store {}) ["a.py"] t =
      .ok ⟨store d, 1, [.of r "a.py" "p"], history⟩ := by
  have hjobs : jobsOf t [("a.py", [r])] = .ok [.of r "a.py" "p"] := by
    simp only [jobsOf, htext]
    rfl
  simp only [Run.plan, hload, hrules, hmatched, hjobs]
  exact ⟨_, rfl⟩

theorem plan_eq (slots : Nat) (latency : Float)
    (hload : (store {}).load t = .ok (store d, notes))
    (htext : fileText t "a.py" = .ok "p") : ∃ history,
      Run.plan (setting severity slots latency) (store {}) ["a.py"] t =
        .ok ⟨store d, 1, [job severity], history⟩ := by
  have hmatched : matchFiles [rule severity] ["a.py"] = .ok [("a.py", [rule severity])] := by
    cases severity with
    | error => decide +kernel
    | warning => decide +kernel
  exact plan_single rfl hmatched hload htext

theorem run_possible {slots : Nat} (hslots : 1 ≤ slots) (latency : Float) (t : Tree) :
    Run.Possible (setting severity slots latency) (store {}) ["a.py"] (world t)
      (Run.run (setting severity slots latency) (store {}) ["a.py"] (world t)) :=
  Run.run_possible hslots

theorem run_of_miss {slots : Nat} (hslots : 1 ≤ slots) (latency : Float) {t' : Int → Tree}
    (hload : (store {}).load t = .ok (store d, notes))
    (htext : fileText t "a.py" = .ok "p")
    (hmiss : d.lookup "no_print" "a.py" (job severity).fileHash (job severity).promptHash = none)
    (hsave : ∀ durationMs, ∃ notes, (store (filled severity d durationMs)).save t =
      (.ok notes, t' durationMs)) : ∃ c history durationMs stop,
        Run.run (setting severity slots latency) (store {}) ["a.py"] (world t) =
          ⟨.ok c, history, 1, ⟨t' durationMs, stop, (), 1⟩⟩ ∧
        history.Follows (fun _ _ => .ok answer) ∧ Json.IsShort durationMs := by
  obtain ⟨opening, hplan⟩ := plan_eq severity slots latency hload htext
  have hunjudged : misses d [job severity] = [job severity] := by
    have hnone : cachedResult d (job severity) = none := congrArg (Option.map _) hmiss
    rw [misses, List.filter_singleton, hnone]
    rfl
  have hfan : ∃ stop, Run.judging (setting severity slots latency)
      ⟨store d, 1, [job severity], opening⟩ (world t) = judged severity slots latency stop := by
    rw [Run.judging, Run.Plan.unjudged, store, hunjudged]
    exact Fanout.run_single hslots rfl rfl ofReply_answer
  obtain ⟨stop, hjudging⟩ := hfan
  obtain ⟨records, hsaved⟩ := hsave (Judge.milliseconds 0 stop)
  obtain ⟨c, before, after, hfinish, _⟩ := Run.finish_of_saved (g := setting severity slots latency)
    ⟨store d, 1, [job severity], opening⟩ (world t) (judged severity slots latency stop) rfl hsaved
  obtain ⟨noted, noted', hopening⟩ := (Run.plan_planned hplan).history
  have hrun : Run.run (setting severity slots latency) (store {}) ["a.py"] (world t) =
      Run.finish (setting severity slots latency) ⟨store d, 1, [job severity], opening⟩ (world t)
        (judged severity slots latency stop) := by
    rw [Run.run, world, hplan, ← hjudging, world]
  rw [hrun, hfinish]
  refine ⟨_, _, _, _, rfl, ?_, Judge.milliseconds_isShort 0 stop⟩
  simp only at hopening
  rw [History.follows_iff, hopening]
  simp [judged]

end

theorem run_bare {slots : Nat} (hslots : 1 ≤ slots) (latency : Float) : ∃ c history durationMs stop,
    Run.run (setting severity slots latency) (store {}) ["a.py"] (world bare) =
      ⟨.ok c, history, 1, ⟨kept (filled severity {} durationMs), stop, (), 1⟩⟩ ∧
      history.Follows (fun _ _ => .ok answer) ∧ Json.IsShort durationMs :=
  run_of_miss severity hslots latency load_bare (fileText_source []) rfl fun durationMs =>
    save_bare (filled_writable severity rfl durationMs)

/-- With the job in the cache file its result is served, whatever severity its rule has by now. -/
theorem run_kept (severity' : Severity) (slots : Nat) (latency : Float) {durationMs : Int}
    (hs : Json.IsShort durationMs) : ∃ c history,
      Run.run (setting severity' slots latency) (store {}) ["a.py"]
          (world (kept (filled severity {} durationMs))) =
        ⟨.ok c, history, 1, world (kept (filled severity {} durationMs))⟩ ∧
      c.results = [{ result severity durationMs with cached := true }] := by
  obtain ⟨notes, hload, _⟩ := load_cached (decode_filled severity hs)
  obtain ⟨opening, hplan⟩ := plan_eq severity' slots latency hload (fileText_source _)
  obtain ⟨notes', hsave⟩ := save_cached (Text.utf8Encode (Store.encode (filled severity {} durationMs)))
    (filled_writable (d := {}) severity rfl durationMs)
  obtain ⟨hserved, hunjudged⟩ := served_filled severity (rule severity') rfl rfl durationMs
  obtain ⟨c, history, hrun, hresults⟩ := Run.run_of_served (world _) hplan hunjudged hsave
  refine ⟨c, history, hrun, ?_⟩
  rw [hresults]
  exact congrArg (List.map (·.2)) hserved

end Sample

end JudgedLint.Lint
