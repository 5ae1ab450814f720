import JudgedLint.Proofs.Decimal.Range
import JudgedLint.Proofs.Lint.Planning

/-! What the report for a terminal says when no styles are in use. It lists the results that did not
pass, each once and under its file, and counts them; it says that all rules passed just if all did. -/
namespace JudgedLint.Report

open Lint (Result Severity Summary)

/-- The failures among results, file by file: the files in the order of their first failures, and the
failures of a file in the order of the results. -/
structure Listing (results : List Result) (groups : List (String × List Result)) : Prop where
  files : groups.map (·.1) = ((results.filter (!·.passed)).map (·.file)).eraseDups
  members : ∀ q ∈ groups, q.2 = results.filter fun r => !r.passed && r.file == q.1
  once : (groups.flatMap (·.2)).Perm (results.filter (!·.passed))

def failureLine (r : Result) : String :=
  "    " ++ (if r.severity = .error then "error" else "warn") ++ "  " ++ r.ruleId ++ "  " ++
    (r.line.elim "" fun n => toString n ++ ": ") ++ r.message

def groupLines (q : String × List Result) : List String := ("  " ++ q.1) :: q.2.map failureLine

def amount (n : Nat) (word : String) : String :=
  toString n ++ " " ++ word ++ (if n = 1 then "" else "s")

/-- The line that counts the failures; of what there is none, no number is given. -/
def countLine (errors warnings files : Nat) : String :=
  "  " ++ amount (errors + warnings) "problem" ++ " (" ++
    (if warnings = 0 then amount errors "error"
      else if errors = 0 then amount warnings "warning"
      else amount errors "error" ++ ", " ++ amount warnings "warning") ++
    ") in " ++ amount files "file"

/-- A report that begins with the words for a run without failures. -/
def SaysAllPassed (text : String) : Prop := "All rules passed".toList <+: text.toList

/-- A report, without styles, that tells how the results are. Its last line is about the run. -/
structure Truthful (results : List Result) (runLine text : String) : Prop where
  passed : (∀ r ∈ results, r.passed = true) → text = Text.join "\n" ["All rules passed", runLine]
  failed : (∃ r ∈ results, r.passed = false) → ∃ groups, Listing results groups ∧
    text = Text.join "\n" (groups.flatMap groupLines ++ ["",
      countLine (results.countP fun r => !r.passed && r.severity == .error)
        (results.countP fun r => !r.passed && r.severity == .warning) groups.length, runLine])
  headline : SaysAllPassed text ↔ ∀ r ∈ results, r.passed = true

theorem flatMap_filter_perm {α κ : Type} [BEq κ] [LawfulBEq κ] {f : α → κ} : ∀ {keys : List κ}
    {l : List α}, keys.Nodup → (∀ a ∈ l, f a ∈ keys) →
      (keys.flatMap fun k => l.filter (f · == k)).Perm l
  | [], l, _, h => by
    rw [List.eq_nil_iff_forall_not_mem.mpr fun a ha => List.not_mem_nil (h a ha)]
    rfl
  | k :: rest, l, hn, h => by
    obtain ⟨hk, hrest⟩ := List.nodup_cons.mp hn
    have hothers : (rest.flatMap fun k' => l.filter (f · == k')) =
        rest.flatMap fun k' => (l.filter (!f · == k)).filter (f · == k') := by
      refine List.flatMap_congr fun k' hk' => ?_
      rw [List.filter_filter]
      refine List.filter_congr fun a _ => ?_
      by_cases ha : f a = k'
      · have hne : (k' == k) = false := beq_eq_false_iff_ne.mpr fun heq => hk (heq ▸ hk')
        rw [ha, hne, beq_self_eq_true]
        rfl
      · rw [beq_eq_false_iff_ne.mpr ha, Bool.false_and]
    have hmore := flatMap_filter_perm (l := l.filter (!f · == k)) hrest fun a ha => by
      obtain ⟨hmem, hne⟩ := List.mem_filter.mp ha
      exact (List.mem_cons.mp (h a hmem)).resolve_left (by simpa using hne)
    rw [List.flatMap_cons, hothers]
    exact (hmore.append_left _).trans (List.filter_append_perm _ _)

def grouped (results : List Result) : List (String × List Result) :=
  (failingFiles results).map fun file => (file, (failures results).filter (·.file == file))

theorem listing_grouped (results : List Result) : Listing results (grouped results) := by
  have hfiles : (grouped results).map (·.1) = ((results.filter (!·.passed)).map (·.file)).eraseDups := by
    rw [grouped, List.map_map, failingFiles, Lint.firstSeen_eq]
    exact List.map_id _
  refine ⟨hfiles, ?_, ?_⟩
  · intro q hq
    obtain ⟨file, _, rfl⟩ := List.mem_map.mp hq
    simp only [failures, List.filter_filter, Bool.and_comm]
  · rw [grouped, List.flatMap_map, failingFiles, Lint.firstSeen_eq]
    refine flatMap_filter_perm (f := Result.file) (Lint.nodup_eraseDups _) fun r hr => ?_
    exact List.mem_eraseDups.mpr (List.mem_map_of_mem hr)

theorem resultLine_plain : resultLine false = failureLine := by
  funext r
  rw [resultLine, failureLine]
  cases r.severity <;> cases r.line <;> rfl

theorem flatMap_fileLines (results : List Result) :
    (failingFiles results).flatMap (fileLines false results) = (grouped results).flatMap groupLines := by
  rw [grouped, List.flatMap_map]
  refine List.flatMap_congr fun file _ => ?_
  rw [fileLines, groupLines, resultLine_plain]
  rfl

theorem counted_natCast (n : Nat) (word : String) : counted n word = amount n word := by
  rw [counted, amount]
  by_cases h : n = 1
  · subst h
    rw [if_pos (by decide), if_pos rfl, String.append_empty]
    rfl
  · rw [if_neg (by simpa using Int.natCast_inj.not.mpr h), if_neg h]
    rfl

theorem join_singleton (s : String) : Text.join ", " [s] = s := rfl

theorem join_pair (s s' : String) : Text.join ", " [s, s'] = s ++ ", " ++ s' := rfl

theorem problemsLine_plain {s : Summary} {errors warnings : Nat} (files : Nat)
    (he : s.errors = errors) (hw : s.warnings = warnings) (h : 0 < errors + warnings) :
    problemsLine false s files = countLine errors warnings files := by
  have htotal : counted ((errors : Int) + warnings) "problem" = amount (errors + warnings) "problem" :=
    counted_natCast (errors + warnings) "problem"
  have hparts : Text.join ", " ((if errors = 0 then [] else [amount errors "error"]) ++
      if warnings = 0 then [] else [amount warnings "warning"]) =
      if warnings = 0 then amount errors "error"
      else if errors = 0 then amount warnings "warning"
      else amount errors "error" ++ ", " ++ amount warnings "warning" := by
    by_cases hwarnings : warnings = 0
    · have herrors : errors ≠ 0 := by omega
      rw [if_pos hwarnings, if_pos hwarnings, if_neg herrors, List.append_nil, join_singleton]
    · rw [if_neg hwarnings, if_neg hwarnings]
      by_cases herrors : errors = 0
      · rw [if_pos herrors, if_pos herrors, List.nil_append, join_singleton]
      · rw [if_neg herrors, if_neg herrors]
        exact join_pair _ _
  simp only [problemsLine, countLine, he, hw, htotal, styled, counted_natCast, Bool.false_eq_true,
    if_false, beq_iff_eq, Int.natCast_eq_zero, hparts]
  simp only [toString, String.append_assoc]

theorem prefix_join (sep first : String) (rest : List String) :
    first.toList <+: (Text.join sep (first :: rest)).toList := by
  rw [Text.join, String.toList_intercalate, List.map_cons]
  cases rest with
  | nil => simp only [List.map_nil, List.intercalate_singleton, List.prefix_rfl]
  | cons s rest =>
    rw [List.map_cons, List.intercalate_cons_cons, List.append_assoc]
    exact List.prefix_append _ _

/-- A report of failures begins with the name of a file, two places from the margin. -/
theorem not_saysAllPassed (file : String) (rest : List String) :
    ¬SaysAllPassed (Text.join "\n" (("  " ++ file) :: rest)) := by
  intro h
  obtain ⟨more, hmore⟩ := prefix_join "\n" ("  " ++ file) rest
  obtain ⟨tail, htail⟩ := h
  rw [← hmore, String.toList_append] at htail
  have hhead := congrArg List.head? htail
  simp at hhead

theorem exists_failed_of_countP {results : List Result} {severity : Severity}
    (h : results.countP (fun r => !r.passed && r.severity == severity) ≠ 0) :
    ∃ r ∈ results, r.passed = false := by
  obtain ⟨r, hr, hfailed⟩ := List.countP_pos_iff.mp (Nat.pos_of_ne_zero h)
  simp only [Bool.and_eq_true, Bool.not_eq_true'] at hfailed
  exact ⟨r, hr, hfailed.1⟩

theorem countP_pos_of_failed {results : List Result} (h : ∃ r ∈ results, r.passed = false) :
    0 < results.countP (fun r => !r.passed && r.severity == .error) +
      results.countP fun r => !r.passed && r.severity == .warning := by
  obtain ⟨r, hr, hfailed⟩ := h
  cases hs : r.severity with
  | error => exact Nat.add_pos_left (List.countP_pos_iff.mpr ⟨r, hr, by simp [hfailed, hs]⟩) _
  | warning => exact Nat.add_pos_right _ (List.countP_pos_iff.mpr ⟨r, hr, by simp [hfailed, hs]⟩)

theorem exists_failed_of_not_all {results : List Result} (h : ¬∀ r ∈ results, r.passed = true) :
    ∃ r ∈ results, r.passed = false := by
  simpa using h

theorem ofResults_errors (results : List Result) (total duration : Int) :
    (Summary.ofResults results total duration).errors =
      (results.countP fun r => !r.passed && r.severity == .error : Nat) := rfl

theorem ofResults_warnings (results : List Result) (total duration : Int) :
    (Summary.ofResults results total duration).warnings =
      (results.countP fun r => !r.passed && r.severity == .warning : Nat) := rfl

theorem countP_of_passed {results : List Result} (h : ∀ r ∈ results, r.passed = true)
    (severity : Severity) : results.countP (fun r => !r.passed && r.severity == severity) = 0 := by
  by_contra hne
  obtain ⟨r, hr, hfailed⟩ := exists_failed_of_countP hne
  rw [h r hr] at hfailed
  cases hfailed

/-- Whether the report says that all passed goes by the counts, and these go by the results. -/
theorem lines_plain (results : List Result) (total duration : Int) :
    lines false results (.ofResults results total duration) =
      if ∀ r ∈ results, r.passed = true then
        ["All rules passed", summaryLine false (.ofResults results total duration)]
      else (grouped results).flatMap groupLines ++ ["",
        countLine (results.countP fun r => !r.passed && r.severity == .error)
          (results.countP fun r => !r.passed && r.severity == .warning) (grouped results).length,
        summaryLine false (.ofResults results total duration)] := by
  have herrors := ofResults_errors results total duration
  have hwarnings := ofResults_warnings results total duration
  by_cases hall : ∀ r ∈ results, r.passed = true
  · have hnone := countP_of_passed hall
    rw [if_pos hall, lines, herrors, hwarnings, hnone, hnone, if_pos (by simp)]
    rfl
  · have hfailed := exists_failed_of_not_all hall
    have hpos := countP_pos_of_failed hfailed
    have hloud : (results.isEmpty || ((Summary.ofResults results total duration).errors == 0 &&
        (Summary.ofResults results total duration).warnings == 0)) = false := by
      obtain ⟨r, hr, _⟩ := hfailed
      have hne : results.isEmpty = false := List.isEmpty_eq_false_iff_exists_mem.mpr ⟨r, hr⟩
      rw [hne, Bool.false_or, herrors, hwarnings]
      simp only [Bool.and_eq_false_iff, beq_eq_false_iff_ne, ne_eq, Int.natCast_eq_zero]
      omega
    have hlength : (failingFiles results).length = (grouped results).length := by
      rw [grouped, List.length_map]
    rw [if_neg hall, lines, hloud, if_neg Bool.false_ne_true]
    dsimp only
    rw [flatMap_fileLines, hlength, problemsLine_plain _ herrors hwarnings hpos]

theorem grouped_eq_cons {results : List Result} (h : ∃ r ∈ results, r.passed = false) :
    ∃ q rest, grouped results = q :: rest := by
  obtain ⟨r, hr, hfailed⟩ := h
  have hfile : r.file ∈ failingFiles results := by
    rw [failingFiles, Lint.firstSeen_eq, List.mem_eraseDups]
    exact List.mem_map_of_mem (List.mem_filter.mpr ⟨hr, by rw [hfailed]; rfl⟩)
  exact List.exists_cons_of_ne_nil (List.ne_nil_of_mem (List.mem_map_of_mem hfile))

theorem console_truthful {results : List Result} {total duration : Int}
    (h : duration.natAbs.log2 ≤ 1023) : ∃ text,
      console? false results (.ofResults results total duration) = some text ∧
      Truthful results (summaryLine false (.ofResults results total duration)) text := by
  have hfinite : ¬(secondsOf (Summary.ofResults results total duration).durationMs).isInf = true := by
    rw [Bool.not_eq_true]
    exact secondsOf_isInf h
  refine ⟨_, if_neg hfinite, ?_⟩
  rw [console, lines_plain]
  by_cases hall : ∀ r ∈ results, r.passed = true
  · rw [if_pos hall]
    refine ⟨fun _ => rfl, fun hfailed => ?_, iff_of_true (prefix_join _ _ _) hall⟩
    obtain ⟨r, hr, hfailed⟩ := hfailed
    rw [hall r hr] at hfailed
    cases hfailed
  · rw [if_neg hall]
    refine ⟨fun hall' => absurd hall' hall, fun _ => ⟨_, listing_grouped results, rfl⟩,
      iff_of_false ?_ hall⟩
    obtain ⟨q, rest, hgrouped⟩ := grouped_eq_cons (exists_failed_of_not_all hall)
    rw [hgrouped]
    exact not_saysAllPassed q.1 _

end JudgedLint.Report
