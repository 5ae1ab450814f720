import JudgedLint.Proofs.Lint.Atomic
import JudgedLint.Proofs.Lint.Completeness

/-! Runs side by side. Two runs over the same files, with the same rules, the same cache and a model
that answers the same to each attempt on a job, come to the same, however many jobs are judged at a
time and however long the calls take: the same results in the same order, and a cache that holds the
same. -/
namespace JudgedLint.Lint

open Cache (Store)
open Model (Reply)

def Summary.timeless (s : Summary) : Summary := { s with durationMs := 0 }

/-- Completed runs that differ in the time they took only. -/
structure Completed.Agrees (c₁ c₂ : Completed) : Prop where
  results : c₁.results.map Result.timeless = c₂.results.map Result.timeless
  summary : c₁.summary.timeless = c₂.summary.timeless
  code : c₁.code = c₂.code

theorem Summary.ofResults_timeless (rs : List Result) (files d : Int) :
    (Summary.ofResults rs files d).timeless =
      Summary.ofResults (rs.map Result.timeless) files 0 := by
  simp only [ofResults, timeless, List.length_map, List.countP_map]
  rfl

theorem exitCode_timeless (rs : List Result) (files d : Int) :
    exitCode rs (.ofResults rs files d) =
      exitCode (rs.map Result.timeless) (.ofResults (rs.map Result.timeless) files 0) := by
  rw [← Summary.ofResults_timeless rs files d, exitCode, exitCode, List.any_map]
  rfl

theorem map_timeless_eq {settle : Job → Except Failure Result} {jobs : List Job} {rs rs' : List Result}
    (h : List.Forall₂ (fun j r => settle j = .ok r.timeless) jobs rs)
    (h' : List.Forall₂ (fun j r => settle j = .ok r.timeless) jobs rs') :
    rs.map Result.timeless = rs'.map Result.timeless := by
  induction h generalizing rs' with
  | nil =>
    cases h'
    rfl
  | cons hr _ ih =>
    cases h' with
    | cons hr' hrest' =>
      rw [List.map_cons, List.map_cons, ih hrest', Except.ok.inj (hr.symm.trans hr')]

namespace Run

variable {σ₁ σ₂ : Type} {g₁ : Setting σ₁} {g₂ : Setting σ₂} {store₁ store₂ : Store}
  {paths : List String} {world₁ : World σ₁} {world₂ : World σ₂} {r₁ : Run σ₁} {r₂ : Run σ₂}
  {p₁ p₂ : Plan} {replies : Job → Nat → Reply}

/-- Runs of the same rules and judge over the same files with the same cache file. -/
structure Comparable (g₁ : Setting σ₁) (g₂ : Setting σ₂) (store₁ store₂ : Store) (world₁ : World σ₁)
    (world₂ : World σ₂) : Prop where
  rules : g₁.rules = g₂.rules
  judge : g₁.judge = g₂.judge
  dir : store₁.dir = store₂.dir
  tree : world₁.tree = world₂.tree

namespace Comparable

theorem symm (h : Comparable g₁ g₂ store₁ store₂ world₁ world₂) :
    Comparable g₂ g₁ store₂ store₁ world₂ world₁ :=
  ⟨h.rules.symm, h.judge.symm, h.dir.symm, h.tree.symm⟩

theorem plan (h : Comparable g₁ g₂ store₁ store₂ world₁ world₂)
    (hp : plan g₁ store₁ paths world₁.tree = .ok p₁) :
    ∃ p₂, Run.plan g₂ store₂ paths world₂.tree = .ok p₂ ∧
      p₂.store = p₁.store ∧ p₂.jobs = p₁.jobs ∧ p₂.files = p₁.files := by
  simp only [Run.plan, h.tree, h.rules, Store.load_of_dir h.dir] at hp ⊢
  split at hp
  · cases hp
  · split at hp
    · cases hp
    · split at hp
      · cases hp
      · cases hp
        exact ⟨_, rfl, rfl, rfl, rfl⟩

theorem unjudged_eq {p₁ p₂ : Plan} (hstore : p₂.store = p₁.store) (hjobs : p₂.jobs = p₁.jobs) :
    p₂.unjudged = p₁.unjudged := by
  rw [Plan.unjudged, Plan.unjudged, hstore, hjobs]

theorem sameResults (h : Comparable g₁ g₂ store₁ store₂ world₁ world₂) (hu : p₂.unjudged = p₁.unjudged)
    {judged₁ judged₂ : List (Job × Result)} (hj₁ : Judgments g₁ p₁ replies judged₁)
    (hj₂ : Judgments g₂ p₂ replies judged₂) : SameResults judged₁ judged₂ := by
  have hsettle : ∀ {judged : List (Job × Result)},
      (∀ q ∈ judged, g₁.judge.settle q.1 (replies q.1) = .ok q.2.timeless) →
      judged.map (fun q => (q.1, q.2.timeless)) = (judged.map (·.1)).map fun j =>
        (j, ((g₁.judge.settle j (replies j)).toOption).getD default) := by
    intro judged hall
    rw [List.map_map]
    refine List.map_congr_left fun q hq => ?_
    simp only [Function.comp_apply, hall q hq]
    rfl
  have hjudge₂ := hj₂.settled
  rw [← h.judge] at hjudge₂
  rw [SameResults, hsettle hj₁.settled, hsettle hjudge₂]
  exact (hj₁.perm.trans (by rw [← hu]; exact hj₂.perm.symm)).map _

theorem completes (h : Comparable g₁ g₂ store₁ store₂ world₁ world₂) (hw : WellNamed g₁.rules)
    (h₁ : Possible g₁ store₁ paths world₁ r₁) (h₂ : Possible g₂ store₂ paths world₂ r₂)
    (hs₁ : r₁.history.Follows replies) (hs₂ : r₂.history.Follows replies) {c₁ : Completed}
    (hc₁ : r₁.outcome = .ok c₁) : ∃ c₂, r₂.outcome = .ok c₂ := by
  obtain ⟨p₁, fan, hjudged⟩ := h₁.judged hc₁
  obtain ⟨p₂, hp₂, hstore, hjobs, _⟩ := h.plan hjudged.plan
  have hu := unjudged_eq hstore hjobs
  have hj₁ := hjudged.judgments hs₁
  cases hout : r₂.outcome with
  | ok c₂ => exact ⟨c₂, rfl⟩
  | error f =>
    obtain ⟨hfails, _, _⟩ := h₂.fails hs₂ hout
    cases hfails with
    | unplanned hp => cases hp.symm.trans hp₂
    | aborted hp hj hsettle =>
      cases hp.symm.trans hp₂
      rw [hu] at hj
      obtain ⟨q, hq, rfl⟩ := List.mem_map.mp (hj₁.perm.mem_iff.mpr hj)
      rw [← h.judge] at hsettle
      cases hsettle.symm.trans (hj₁.settled q hq)
    | @unsaved p judged₂ e tree hp hj₂ hsave hf =>
      cases hp.symm.trans hp₂
      obtain ⟨notes, hsaved⟩ := hjudged.saved
      have hplanned := plan_planned hjudged.plan
      obtain ⟨_, hload⟩ := hplanned.loaded
      have hbranches := (h.sameResults hu hj₁ hj₂).branches g₁.stamp g₂.stamp world₁.stored
        world₂.stored (hplanned.nodup_judged hw hj₁.perm)
        (Store.load_lasting hload).distinct
      obtain ⟨paved, place, hto⟩ := Store.save_ok hsaved
      have hwritable := hbranches.alike.unwritable.mp hto.writable
      rw [← hstore] at hwritable
      have hdir : (filled g₁ p₁ world₁.stored fan.history.judged).dir =
          (filled g₂ p₂ world₂.stored judged₂).dir := (congrArg Store.dir hstore).symm
      obtain ⟨notes', t'', hok⟩ := Store.save_of_save hdir hwritable hsaved
      rw [h.tree, hsave] at hok
      cases hok

/-- Completed runs agree, and so do the caches that they saved. -/
theorem agrees (h : Comparable g₁ g₂ store₁ store₂ world₁ world₂) (hw : WellNamed g₁.rules)
    (hstamp₁ : ∀ n, (g₁.stamp n).IsStamp) (hstamp₂ : ∀ n, (g₂.stamp n).IsStamp) {c₁ c₂ : Completed}
    {fan₁ : Fanout σ₁} {fan₂ : Fanout σ₂} (hj₁ : Judged g₁ store₁ paths world₁ r₁ c₁ p₁ fan₁)
    (hj₂ : Judged g₂ store₂ paths world₂ r₂ c₂ p₂ fan₂) (hs₁ : r₁.history.Follows replies)
    (hs₂ : r₂.history.Follows replies) :
    c₁.Agrees c₂ ∧ ∃ d₁ d₂, Saves store₁ world₁ r₁ d₁ ∧ Saves store₂ world₂ r₂ d₂ ∧ d₁.Alike d₂ ∧
      d₁.readBack.Alike d₂.readBack := by
  obtain ⟨p, hp, hstore, hjobs, hfiles⟩ := h.plan hj₁.plan
  cases hp.symm.trans hj₂.plan
  have hu := unjudged_eq hstore hjobs
  have hw₂ : WellNamed g₂.rules := by
    rw [← h.rules]
    exact hw
  have hresults : c₁.results.map Result.timeless = c₂.results.map Result.timeless := by
    have hserved : p₂.served = p₁.served := by rw [Plan.served, Plan.served, hstore, hjobs]
    have hsettled₂ := hj₂.settled hs₂
    rw [← h.judge, hu] at hsettled₂
    rw [hj₁.results, hj₂.results, results, results, List.map_append, List.map_append, hserved, hu,
      map_timeless_eq (hj₁.settled hs₁) hsettled₂]
  obtain ⟨time₁, hsummary₁⟩ := hj₁.summary
  obtain ⟨time₂, hsummary₂⟩ := hj₂.summary
  obtain ⟨hsaves₁, _⟩ := hj₁.saves hw hstamp₁
  obtain ⟨hsaves₂, _⟩ := hj₂.saves hw₂ hstamp₂
  have hplanned := plan_planned hj₁.plan
  obtain ⟨_, hload⟩ := hplanned.loaded
  obtain ⟨done, hdone, _⟩ := hj₁.reaches.settled hj₁.ended hj₁.failure
  have hkeys := hplanned.nodup_judged hw (hj₁.judgments hs₁).perm
  have hbranches := (h.sameResults hu (hj₁.judgments hs₁) (hj₂.judgments hs₂)).branches
    g₁.stamp g₂.stamp world₁.stored world₂.stored hkeys
    (Store.load_lasting hload).distinct
  have hdistinct : Json.Distinct (fresh fan₁.history.judged) := by rwa [Json.Distinct, fresh_keys]
  obtain ⟨paved, place, hto⟩ := hsaves₁.saved
  have hwell := (hj₁.filled hw).isWellFormed_key (fun q hq => (hdone.mem_judged hq).1) hto.writable
  rw [hstore] at hsaves₂
  refine ⟨⟨hresults, ?_, ?_⟩, _, _, hsaves₁, hsaves₂, hbranches.alike,
    hbranches.readBack_alike hdistinct fun e he => ?_⟩
  · rw [hsummary₁, hsummary₂, Summary.ofResults_timeless, Summary.ofResults_timeless, hresults, hfiles]
  · rw [hj₁.code, hj₂.code, hsummary₁, hsummary₂, exitCode_timeless, exitCode_timeless c₂.results,
      hresults, hfiles]
  · obtain ⟨q, hq, rfl⟩ := List.mem_map.mp he
    exact hwell q hq

end Comparable

end Run

namespace Sample

open Cache.Sample

end Sample

end JudgedLint.Lint
