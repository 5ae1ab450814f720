import JudgedLint.Proofs.Lint.Labels
import JudgedLint.Proofs.Lint.Provenance
import JudgedLint.Proofs.Report.Console

/-! What is shown of a completed run on the terminal. The report can always be written, lists each
failure once, and says that all rules passed just if all did. A run that exits with one has a failure to
show: also a result that stands for a failed call did not pass, be it fresh or served from the cache. -/
namespace JudgedLint.Lint

open Report (SaysAllPassed Truthful)
open Workspace (Path Tree)

/-- Milliseconds are counted within the range of floats. -/
theorem Judge.log2_milliseconds_le (start stop : Float) : (milliseconds start stop).natAbs.log2 ≤ 1023 := by
  rw [milliseconds]
  cases h : Decimal.truncate? ((stop - start) * 1000.0) with
  | none => exact Nat.zero_le _
  | some n => exact Decimal.log2_truncate?_le h

namespace Run

variable {σ : Type} {g : Setting σ} {store : Cache.Store} {paths : List String} {world : World σ}
  {r : Run σ} {c : Completed} {p : Plan} {fan : Fanout σ}

theorem finish_summary (hc : (finish g p world fan).outcome = .ok c) :
    c.summary = .ofResults c.results p.files (Judge.milliseconds world.now fan.now) := by
  simp only [finish] at hc
  split at hc
  · cases hc
  · split at hc
    · cases hc
    · cases hc
      rfl

theorem Possible.told (h : Possible g store paths world r) (hc : r.outcome = .ok c) : ∃ text,
    Report.console? false c.results c.summary = some text ∧
    Truthful c.results (Report.summaryLine false c.summary) text := by
  cases h with
  | unplanned hp => cases hc
  | planned hp hr he =>
    rw [finish_summary hc]
    exact Report.console_truthful (Judge.log2_milliseconds_le _ _)

end Run

variable {σ : Type} {dir : Path} {t : Tree} {e : Episode σ} {past later episodes : List (Episode σ)}
  {c : Completed}

/-- A result that stands for a failed call did not pass: the judging makes it so, and the cache holds
what judging made. -/
theorem Continues.failed_of_apiError {d : Cache.Document} {p : Run.Plan} {fan : Fanout σ}
    (h : Continues dir past d e c p fan) (hcomes : ∀ k x, (k, x) ∈ d.entries → Comes past k x)
    {r : Result} (hr : r ∈ c.results) (herror : r.apiError = true) : r.passed = false := by
  obtain ⟨listed, _, hresults, hlisted⟩ := h.listed
  rw [← hresults] at hr
  obtain ⟨⟨j, r⟩, hq, rfl⟩ := List.mem_map.mp hr
  rcases (hlisted _ hq).2 with hserved | ⟨_, hjudged⟩
  · obtain ⟨_, stored, hlookup, rfl⟩ := h.mem_served.mp hserved
    obtain ⟨x, hx, _, _, rfl⟩ := Cache.Document.lookup_eq_some.mp hlookup
    exact ((hcomes _ x (Json.mem_of_lookup hx)).sound.degraded herror).1
  · exact ((h.judged.reaches.posed.judged _ hjudged).degraded herror).1

theorem Continues.exists_failed {d : Cache.Document} {p : Run.Plan} {fan : Fanout σ}
    (h : Continues dir past d e c p fan) (hcomes : ∀ k x, (k, x) ∈ d.entries → Comes past k x)
    (hcode : c.code.toNat = 1) : ∃ r ∈ c.results, r.passed = false := by
  obtain ⟨r, hr, hfailed⟩ := h.judged.code_eq_one_iff.mp hcode
  rcases hfailed with ⟨hfailed, _⟩ | herror
  · exact ⟨r, hr, hfailed⟩
  · exact ⟨r, hr, h.failed_of_apiError hcomes hr herror⟩

/-- In every completed run the report, without styles, lists each failure once under its file, counts
the failures, and says that all rules passed just if all did; never if the run exits with one. -/
theorem Chronicle.report_truthful (h : Chronicle dir episodes t) : ∀ later e past,
    episodes = later ++ e :: past → ∀ c, e.run.outcome = .ok c → ∃ text,
      Report.console? false c.results c.summary = some text ∧
      Truthful c.results (Report.summaryLine false c.summary) text ∧
      (c.code.toNat = 1 → ¬SaysAllPassed text) := by
  rintro later e past rfl c hc
  obtain ⟨hpast, he⟩ := h.before
  obtain ⟨d, hremembers, hkeeps, hcomes⟩ := hpast.comes
  obtain ⟨p, fan, hjudged⟩ := he.possible.judged hc
  have hrun : Continues dir past d e c p fan := ⟨hremembers, hkeeps, he, hc, hjudged⟩
  obtain ⟨text, htext, htold⟩ := he.possible.told hc
  refine ⟨text, htext, htold, fun hcode hsays => ?_⟩
  obtain ⟨r, hr, hfailed⟩ := hrun.exists_failed hcomes hcode
  rw [htold.headline.mp hsays r hr] at hfailed
  cases hfailed

namespace Sample

open Cache.Sample

/-- The failure that the second run is served is shown, and not that all passed. -/
theorem report_truthful_twice : ∃ t t',
    Chronicle (store {}).dir [episode .error t, episode .error bare] t' ∧
    ∃ c text groups, (episode .error t).run.outcome = .ok c ∧
      Report.console? false c.results c.summary = some text ∧ ¬SaysAllPassed text ∧
      Report.Listing c.results groups ∧ groups.map (·.1) = ["a.py"] := by
  obtain ⟨durationMs, h⟩ := exists_twice .error .error
  obtain ⟨c, hc, hresults⟩ := h.served
  obtain ⟨text, htext, htold, _⟩ := h.chronicle.report_truthful [] _ _ rfl c hc
  have hfailed : ∃ r ∈ c.results, r.passed = false := by
    rw [hresults]
    exact ⟨_, List.mem_singleton.mpr rfl, rfl⟩
  obtain ⟨groups, hlisting, _⟩ := htold.failed hfailed
  refine ⟨_, _, h.chronicle, c, text, groups, hc, htext, fun hsays => ?_, hlisting, ?_⟩
  · obtain ⟨r, hr, hfailed⟩ := hfailed
    rw [htold.headline.mp hsays r hr] at hfailed
    cases hfailed
  · rw [hlisting.files, hresults]
    rfl

end Sample

end JudgedLint.Lint
