import JudgedLint.Proofs.Except
import JudgedLint.Proofs.Lint.Event
import Mathlib.Data.List.Nodup

/-! What a plan holds: a job for each path, in first-seen order, and each rule that applies to it, in
the order of the configuration; each with the text of its file and the fingerprints of what is
judged. -/
namespace JudgedLint.Lint

open Workspace (Tree)

/-- The rule's glob matches a path, and its exclusion, if any, does not. -/
def Rule.covers (r : Rule) (path : String) : Bool := holds r.appliesTo (Pattern.normalizePath path)

/-- Each path once, where it first stands, with each rule that covers it. -/
def pairs (rules : List Rule) (paths : List String) : List (String × Rule) :=
  paths.eraseDups.flatMap fun path => (rules.filter (·.covers path)).map (path, ·)

theorem firstSeen_eq (paths : List String) : firstSeen paths = paths.eraseDups := by
  have hloop : ∀ (paths seen : List String),
      (paths.foldl (fun seen p => if seen.contains p then seen else p :: seen) seen).reverse =
        List.eraseDupsBy.loop (· == ·) paths seen := by
    intro paths
    induction paths with
    | nil => intro seen; rfl
    | cons p rest ih =>
      intro seen
      rw [List.foldl_cons, ih, List.eraseDupsBy.loop, List.contains_eq_any_beq]
      cases seen.any fun q => p == q with
      | true => rfl
      | false => rfl
  exact hloop paths []

theorem nodup_eraseDups : ∀ (paths : List String), paths.eraseDups.Nodup
  | [] => .nil
  | p :: rest => by
    rw [List.eraseDups_cons, List.nodup_cons]
    exact ⟨by simp, nodup_eraseDups _⟩
  termination_by paths => paths.length
  decreasing_by exact Nat.lt_succ_of_le (List.length_filter_le _ _)

theorem nodup_pairs {rules : List Rule} (paths : List String) (h : (rules.map (·.id)).Nodup) :
    ((pairs rules paths).map fun q => (q.2.id, q.1)).Nodup := by
  rw [pairs, List.map_flatMap, List.nodup_flatMap]
  constructor
  · intro path _
    rw [List.map_map, Function.comp_def]
    refine List.Nodup.of_map Prod.fst ?_
    rw [List.map_map, Function.comp_def]
    exact h.sublist (List.filter_sublist.map _)
  · refine (nodup_eraseDups paths).imp fun hne => ?_
    intro q hq hq'
    simp only [List.map_map, List.mem_map, Function.comp_apply] at hq hq'
    obtain ⟨r, _, rfl⟩ := hq
    obtain ⟨r', _, he⟩ := hq'
    exact hne (congrArg Prod.snd he).symm

theorem rulesFor_eq {rules kept : List Rule} {path : String} (h : rulesFor rules path = .ok kept) :
    kept = rules.filter (·.covers path) :=
  filterM_eq_ok h

theorem matchFiles_eq {rules : List Rule} {paths : List String}
    {matched : List (String × List Rule)} (h : matchFiles rules paths = .ok matched) :
    matched = paths.eraseDups.map fun path => (path, rules.filter (·.covers path)) := by
  rw [matchFiles, firstSeen_eq, mapM_eq_ok] at h
  generalize paths.eraseDups = distinct at h ⊢
  induction h with
  | nil => rfl
  | cons hp hrest ih =>
    obtain ⟨kept, hkept, hpair⟩ := bind_eq_ok.mp hp
    rw [List.map_cons, ← ih, ← pure_eq_ok.mp hpair, rulesFor_eq hkept]

/-- The jobs of matched files, and what each of them holds. -/
structure Made (t : Tree) (matched : List (String × List Rule)) (jobs : List Job) : Prop where
  pairs : jobs.map (fun j => (j.file, j.rule)) = matched.flatMap fun m => m.2.map (m.1, ·)
  text : ∀ j ∈ jobs, fileText t j.file = .ok j.content
  job : ∀ j ∈ jobs, j = Job.of j.rule j.file j.content

theorem jobsOf_made {t : Tree} {matched : List (String × List Rule)} :
    ∀ {jobs : List Job}, jobsOf t matched = .ok jobs → Made t matched jobs := by
  induction matched with
  | nil =>
    intro jobs h
    cases h
    exact ⟨rfl, by simp, by simp⟩
  | cons m rest ih =>
    intro jobs h
    obtain ⟨file, rules⟩ := m
    simp only [jobsOf] at h
    split at h
    · next hempty =>
      obtain rfl : rules = [] := List.isEmpty_iff.mp hempty
      have hm := ih h
      exact ⟨by simpa using hm.pairs, hm.text, hm.job⟩
    · obtain ⟨content, hcontent, h⟩ := bind_eq_ok.mp h
      obtain ⟨more, hmore, h⟩ := bind_eq_ok.mp h
      obtain rfl := pure_eq_ok.mp h
      have hm := ih hmore
      refine ⟨?_, ?_, ?_⟩
      · simp [hm.pairs, Job.of, Function.comp_def]
      · intro j hj
        rcases List.mem_append.mp hj with hj | hj
        · obtain ⟨r, _, rfl⟩ := List.mem_map.mp hj
          exact hcontent
        · exact hm.text j hj
      · intro j hj
        rcases List.mem_append.mp hj with hj | hj
        · obtain ⟨r, _, rfl⟩ := List.mem_map.mp hj
          rfl
        · exact hm.job j hj

namespace Run

variable {σ : Type} {g : Setting σ} {store : Cache.Store} {paths : List String} {t : Tree} {p : Plan}

structure Planned (g : Setting σ) (store : Cache.Store) (paths : List String) (t : Tree) (p : Plan) :
    Prop where
  loaded : ∃ notes, store.load t = .ok (p.store, notes)
  pairs : p.jobs.map (fun j => (j.file, j.rule)) = Lint.pairs g.rules paths
  text : ∀ j ∈ p.jobs, fileText t j.file = .ok j.content
  job : ∀ j ∈ p.jobs, j = Job.of j.rule j.file j.content
  files : p.files = paths.eraseDups.countP fun path => g.rules.any (·.covers path)
  history : ∃ before after, p.history = noted g.runId before ++
    p.served.map (fun h => .served h.1 h.2) ++ noted g.runId after

theorem fileCount_eq (rules : List Rule) (paths : List String) :
    fileCount (paths.map fun path => (path, rules.filter (·.covers path))) =
      paths.countP fun path => rules.any (·.covers path) := by
  rw [fileCount, List.countP_map]
  congr 1
  funext path
  induction rules with
  | nil => rfl
  | cons r rest ih => cases h : r.covers path <;> simp_all

theorem plan_planned (h : plan g store paths t = .ok p) : Planned g store paths t p := by
  simp only [plan] at h
  split at h
  · cases h
  · next loadedStore notes hload =>
    split at h
    · cases h
    · next matched hmatched =>
      split at h
      · cases h
      · next jobs hjobs =>
        cases h
        have hm := jobsOf_made hjobs
        obtain rfl := matchFiles_eq hmatched
        exact ⟨⟨notes, hload⟩, by simpa [Lint.pairs, List.flatMap_map] using hm.pairs, hm.text, hm.job,
          fileCount_eq _ _, _, _, rfl⟩

theorem plan_error_history {f : Failure} {history : History}
    (h : plan g store paths t = .error (f, history)) : ∃ records, history = noted g.runId records := by
  simp only [plan] at h
  split at h
  · cases h
    exact ⟨[], rfl⟩
  · split at h
    · cases h
      exact ⟨_, rfl⟩
    · split at h
      · cases h
        exact ⟨_, rfl⟩
      · cases h

theorem Planned.reports (h : Planned g store paths t p) : p.history.reports = 0 := by
  obtain ⟨before, after, hh⟩ := h.history
  rw [hh]
  simp

end Run
end JudgedLint.Lint
