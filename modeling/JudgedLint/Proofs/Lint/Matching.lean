import JudgedLint.Proofs.Lint.Planning
import JudgedLint.Proofs.Lint.Validation
import JudgedLint.Proofs.Pattern.Groups
import JudgedLint.Lint.Matching
import JudgedLint.Workspace.Selection

/-! Which rules can be matched. Of a glob a configuration asks only that it is not empty, and of an
exclusion nothing; whether they can be matched shows when they are compiled. Nothing but the ranges
of their classes stands in the way, as long as no class is empty. -/
namespace JudgedLint.Lint

open Pattern (ClassesInOrder classBodies compileGlob matchGlob normalizePath piecesFrom pieces)
open Workspace (Path Tree)

variable {glob : String} {rules : List Rule} {r : Rule}

/-! ## Patterns -/

theorem matchGlob_isOk (path glob : String) :
    (∃ b, matchGlob path glob = .ok b) ↔ ∃ e, compileGlob glob = .ok e := by
  unfold matchGlob
  constructor
  · rintro ⟨b, h⟩
    obtain ⟨e, he, _⟩ := bind_eq_ok.mp h
    exact ⟨e, he⟩
  · rintro ⟨e, he⟩
    exact ⟨_, bind_eq_ok.mpr ⟨e, he, rfl⟩⟩

theorem compileGlob_isOk (hfilled : [] ∉ classBodies glob) :
    (∃ e, compileGlob glob = .ok e) ↔ ClassesInOrder glob := by
  obtain ⟨e, _, he⟩ := Pattern.compileGlob_of_filled hfilled
  rw [he]
  by_cases h : ClassesInOrder glob
  · rw [if_pos h]
    exact ⟨fun _ => h, fun _ => ⟨e, rfl⟩⟩
  · rw [if_neg h]
    refine ⟨fun hok => ?_, fun hordered => absurd hordered h⟩
    obtain ⟨_, hok⟩ := hok
    cases hok

/-! ## Rules -/

def Rule.patterns (r : Rule) : List String := r.glob :: r.exclude.toList

def Rule.ClassesFilled (r : Rule) : Prop := ∀ p ∈ r.patterns, [] ∉ classBodies p

instance (r : Rule) : Decidable r.ClassesFilled :=
  inferInstanceAs (Decidable (∀ p ∈ r.patterns, [] ∉ classBodies p))

/-- No range runs backwards, be it in the glob or in an exclusion that is ever looked at. -/
structure Rule.IsMatchable (r : Rule) : Prop where
  glob : ClassesInOrder r.glob
  exclude : ∀ e, r.exclude = some e → e ≠ "" →
    ClassesInOrder e ∨ ∀ path, matchGlob path r.glob = .ok false

theorem appliesTo_isOk (hfilled : r.ClassesFilled) :
    (∀ path, ∃ b, r.appliesTo path = .ok b) ↔ r.IsMatchable := by
  have hglob (path : String) : (∃ b, matchGlob path r.glob = .ok b) ↔ ClassesInOrder r.glob :=
    (matchGlob_isOk path r.glob).trans (compileGlob_isOk (hfilled _ List.mem_cons_self))
  have hexclude {e : String} (he : r.exclude = some e) (path : String) :
      (∃ b, matchGlob path e = .ok b) ↔ ClassesInOrder e := by
    refine (matchGlob_isOk path e).trans (compileGlob_isOk (hfilled _ ?_))
    rw [Rule.patterns, he]
    exact List.mem_cons_of_mem _ List.mem_cons_self
  constructor
  · intro h
    refine ⟨?_, ?_⟩
    · obtain ⟨b, hb⟩ := h ""
      obtain ⟨matched, hmatched, _⟩ := bind_eq_ok.mp hb
      exact (hglob "").mp ⟨matched, hmatched⟩
    · intro e he hne
      -- An exclusion that cannot be read fails at every path that the glob lets through.
      by_cases hordered : ClassesInOrder e
      · exact .inl hordered
      · refine .inr fun path => ?_
        obtain ⟨b, hb⟩ := h path
        obtain ⟨matched, hmatched, hrest⟩ := bind_eq_ok.mp hb
        cases matched with
        | false => exact hmatched
        | true =>
          rw [he] at hrest
          change (if e.isEmpty then .ok true else matchGlob path e >>= fun out => .ok !out) = _ at hrest
          rw [if_neg (by simpa using hne)] at hrest
          obtain ⟨out, hout, _⟩ := bind_eq_ok.mp hrest
          exact absurd ((hexclude he path).mp ⟨out, hout⟩) hordered
  · rintro ⟨hordered, hout⟩ path
    obtain ⟨matched, hmatched⟩ := (hglob path).mpr hordered
    unfold Rule.appliesTo
    rw [hmatched]
    cases matched with
    | false => exact ⟨false, rfl⟩
    | true =>
      cases he : r.exclude with
      | none => exact ⟨true, rfl⟩
      | some e =>
        change ∃ b, (if e.isEmpty then .ok true else matchGlob path e >>= fun out => .ok !out) = .ok b
        by_cases hempty : e = ""
        · rw [if_pos (by simpa using hempty)]
          exact ⟨true, rfl⟩
        · rw [if_neg (by simpa using hempty)]
          rcases hout e he hempty with hclasses | hnever
          · obtain ⟨out, hout⟩ := (hexclude he path).mpr hclasses
            exact ⟨!out, bind_eq_ok.mpr ⟨out, hout, rfl⟩⟩
          · rw [hnever path] at hmatched
            cases hmatched

theorem appliesTo_normalizePath (r : Rule) (path : String) :
    r.appliesTo (normalizePath path) = r.appliesTo path := by
  unfold Rule.appliesTo
  simp only [Pattern.matchGlob_normalizePath]

/-! ## Selections -/

theorem matchFiles_isOk : (∀ paths, ∃ matched, matchFiles rules paths = .ok matched) ↔
    ∀ r ∈ rules, ∀ path, ∃ b, r.appliesTo path = .ok b := by
  have hpair (path : String) : (∃ m, (do return (path, ← rulesFor rules path)) = Except.ok m) ↔
      ∀ r ∈ rules, ∃ b, r.appliesTo path = .ok b := by
    simp only [rulesFor, appliesTo_normalizePath]
    rw [← filterM_isOk]
    constructor
    · rintro ⟨m, h⟩
      obtain ⟨kept, hkept, _⟩ := bind_eq_ok.mp h
      exact ⟨kept, hkept⟩
    · rintro ⟨kept, hkept⟩
      exact ⟨_, bind_eq_ok.mpr ⟨kept, hkept, rfl⟩⟩
  unfold matchFiles
  simp only [firstSeen_eq, mapM_isOk, hpair]
  constructor
  · intro h r hr path
    exact h [path] path (by simp) r hr
  · intro h paths path _ r hr
    exact h r hr path

theorem selectMatching_isOk (t : Tree) (start : Path) (globs : List String) :
    (∃ files, t.selectMatching start globs = .ok files) ↔ ∀ g ∈ globs, ∃ e, compileGlob g = .ok e := by
  rw [← mapM_isOk]
  cases globs with
  | nil => exact ⟨fun _ => ⟨[], rfl⟩, fun _ => ⟨[], rfl⟩⟩
  | cons g globs =>
    change (∃ files, ((g :: globs).mapM compileGlob >>= _) = Except.ok files) ↔ _
    constructor
    · rintro ⟨files, h⟩
      obtain ⟨patterns, hpatterns, _⟩ := bind_eq_ok.mp h
      exact ⟨patterns, hpatterns⟩
    · rintro ⟨patterns, hpatterns⟩
      simp only [hpatterns, bind, Except.bind]
      split
      · exact ⟨_, rfl⟩
      · exact ⟨_, rfl⟩

theorem mem_allGlobs : glob ∈ allGlobs rules ↔ ∃ r ∈ rules, r.glob = glob := by
  rw [allGlobs, firstSeen_eq, List.mem_eraseDups, List.mem_map]

/-- The translation of a glob comes to its end, and rules whose classes are filled can be matched
just if no range in them runs backwards. -/
theorem matchable_iff (hfilled : ∀ r ∈ rules, r.ClassesFilled) :
    (∀ fuel cs, cs.length < fuel → piecesFrom fuel true 0 cs = pieces cs) ∧
    (∀ r ∈ rules, ∀ p ∈ r.patterns, (∃ e, compileGlob p = .ok e) ↔ ClassesInOrder p) ∧
    ((∀ paths, ∃ matched, matchFiles rules paths = .ok matched) ↔ ∀ r ∈ rules, r.IsMatchable) ∧
    ∀ t start, (∃ files, Tree.selectMatching t start (allGlobs rules) = .ok files) ↔
      ∀ r ∈ rules, ClassesInOrder r.glob := by
  refine ⟨?_, ?_, ?_, ?_⟩
  · intro fuel cs hfuel
    exact Pattern.piecesFrom_fuel hfuel (Nat.lt_succ_self _)
  · intro r hr p hp
    exact compileGlob_isOk (hfilled r hr p hp)
  · rw [matchFiles_isOk]
    exact forall₂_congr fun r hr => appliesTo_isOk (hfilled r hr)
  · intro t start
    rw [selectMatching_isOk]
    constructor
    · intro h r hr
      exact (compileGlob_isOk (hfilled r hr _ List.mem_cons_self)).mp (h _ (mem_allGlobs.mpr ⟨r, hr, rfl⟩))
    · intro h g hg
      obtain ⟨r, hr, rfl⟩ := mem_allGlobs.mp hg
      exact (compileGlob_isOk (hfilled r hr _ List.mem_cons_self)).mpr (h r hr)

namespace Sample

def patternConfig (glob : String) (exclude : Option String) : Config :=
  ⟨.openrouter, none, "gemini-flash", 5, "main",
    [⟨"no_print", "No print", .error, glob, exclude, "Do not print.", none⟩]⟩

def patternData (glob : String) (exclude : Option String) : Datum :=
  .map [(.str "rules", .list ((patternConfig glob exclude).rules.map Rule.toDatum))]

def classConfig : Config := patternConfig "src/[a-z_]*.\x7bts,tsx\x7d" (some "**/[!.]*.d.ts")

/-- All the ranges of these patterns are in order. -/
theorem matchable_iff_classes : (∀ r ∈ classConfig.rules, r.ClassesFilled) ∧
    ∀ paths, ∃ matched, matchFiles classConfig.rules paths = .ok matched := by
  have hfilled : ∀ r ∈ classConfig.rules, r.ClassesFilled := by decide
  refine ⟨hfilled, (matchable_iff hfilled).2.2.1.mpr fun r hr => ?_⟩
  rw [List.mem_singleton.mp hr]
  refine ⟨by decide, fun e he _ => .inl ?_⟩
  cases he
  decide

/-- A configuration is accepted though neither a path can be matched against it nor a file be found:
the range in its glob runs backwards. -/
theorem accepted_unmatchable :
    Config.validate .default (patternData "[z-a]" none) = .ok (patternConfig "[z-a]" none) ∧
      matchFiles (patternConfig "[z-a]" none).rules ["src/main.py"] = .error .badRange ∧
      ∀ t start, Tree.selectMatching t start (allGlobs (patternConfig "[z-a]" none).rules) =
        .error .badRange := by
  have hglobs : allGlobs (patternConfig "[z-a]" none).rules = ["[z-a]"] := by decide
  have hbad : compileGlob "[z-a]" = .error .badRange := by decide
  refine ⟨by decide, by decide, fun t start => ?_⟩
  rw [hglobs, Tree.selectMatching, List.mapM_cons, hbad]
  rfl

end Sample
end JudgedLint.Lint
