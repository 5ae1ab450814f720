import JudgedLint.Proofs.Lint.Matching
import JudgedLint.Proofs.Workspace.Relisting

/-! The files that the rules find by their globs: those below the directory that are eligible and that some
rule's glob matches, each once, whatever the order in which directories list them. -/
namespace JudgedLint

open Pattern (compileGlob matchGlob normalizePath)

namespace Workspace

variable {t t' : Tree} {here start : Path} {names : List String} {path : String}

theorem isHidden_up : isHidden ".." = true := by decide

theorem Tree.Meets.up {children : List (String × Entry)} (h : t.Meets here children names) : ".." ∉ names := by
  induction h with
  | file hat hfile hshown =>
    intro hup
    rw [← List.mem_singleton.mp hup, isHidden_up] at hshown
    cases hshown
  | dir hat hsearched _ ih =>
    intro hup
    rcases List.mem_cons.mp hup with rfl | hup
    · rw [isSearched, isHidden_up, Bool.not_true, Bool.and_false] at hsearched
      cases hsearched
    · exact ih hup

/-- How a file is shown that stands at the end of these names below the directory. -/
def shownBelow (names : List String) : String := normalizePath (Path.text ⟨"", names⟩)

theorem relative_of_eligible (hroot : (Path.ofText t.root).lead ≠ "") (h : t.Eligible start names) :
    t.relative start (start.below names) = shownBelow names := by
  obtain ⟨children, he, hmeets⟩ := h
  have hlocate : ∃ place, t.locate start = .ok place := by
    rcases entry_dir_cases he with ⟨above, hfound⟩ | ⟨houtside, _⟩
    · exact ⟨_, hfound⟩
    · exact ⟨_, houtside⟩
  obtain ⟨place, hlocate⟩ := hlocate
  obtain ⟨dirs, hs, _⟩ := follow_of_locate hlocate
  rw [Path.below, relative_eq hroot hs (segments?_append names hroot hs), ← List.append_assoc,
    Path.collapse_append _ hmeets.up, Path.relativeParts_below, shownBelow]

theorem relative_relisted (hr : t.Relisted t') : t'.relative = t.relative := by
  funext start p
  unfold Tree.relative
  simp only [hr.root, isAbsolute_relisted hr]

theorem walked_relisted (hr : t.Relisted t') (hn : t.WellNamed) (hn' : t'.WellNamed) (start : Path) :
    t'.walked start = t.walked start := by
  have hsame : ListsBelow start (t'.walked start) (t.Eligible start) := by
    refine (listsBelow_walked hn' start).congr ?_
    intro names
    constructor
    · exact fun h => h.relisted hr.symm
    · exact fun h => h.relisted hr
  obtain ⟨found, hwalked, hwalked', _⟩ := (listsBelow_walked hn start).unique hsame
  rw [hwalked, hwalked']

theorem selectMatching_relisted (hr : t.Relisted t') (hn : t.WellNamed) (hn' : t'.WellNamed) (start : Path)
    (globs : List String) : t'.selectMatching start globs = t.selectMatching start globs := by
  cases hne : globs.isEmpty with
  | true => rw [Tree.selectMatching, Tree.selectMatching, hne, if_pos rfl, if_pos rfl]
  | false =>
    cases hpatterns : globs.mapM compileGlob with
    | error e =>
      rw [Tree.selectMatching, Tree.selectMatching, hne, hpatterns]
      rfl
    | ok patterns =>
      rw [selectMatching_eq hne hpatterns, selectMatching_eq hne hpatterns, walked_relisted hr hn hn',
        relative_relisted hr]

end Workspace

namespace Lint

open Workspace (Path Tree shownBelow)

variable {t : Tree} {start : Path} {rules : List Rule}

theorem any_accepts_iff {globs : List String} {patterns : List Pattern.Regex}
    (h : globs.mapM compileGlob = .ok patterns) (path : String) :
    (patterns.any fun r => r.accepts (normalizePath path).toList) = true ↔
      ∃ g ∈ globs, matchGlob path g = .ok true := by
  rw [mapM_eq_ok] at h
  induction h with
  | nil => simp
  | @cons g r globs patterns hcompile _ ih =>
    have hmatch : matchGlob path g = .ok (r.accepts (normalizePath path).toList) := by
      rw [matchGlob, hcompile, normalizePath, String.toList_ofList]
      rfl
    rw [List.any_cons, Bool.or_eq_true, ih, List.exists_mem_cons_iff, hmatch, Except.ok.injEq]

theorem any_accepts_allGlobs {patterns : List Pattern.Regex} (h : (allGlobs rules).mapM compileGlob = .ok patterns)
    (names : List String) :
    (patterns.any fun r => r.accepts (shownBelow names).toList) = true ↔
      ∃ r ∈ rules, matchGlob (shownBelow names) r.glob = .ok true := by
  rw [shownBelow, any_accepts_iff h]
  simp only [Pattern.matchGlob_normalizePath]
  constructor
  · rintro ⟨g, hg, hmatch⟩
    obtain ⟨r, hr, rfl⟩ := mem_allGlobs.mp hg
    exact ⟨r, hr, hmatch⟩
  · rintro ⟨r, hr, hmatch⟩
    exact ⟨r.glob, mem_allGlobs.mpr ⟨r, hr, rfl⟩, hmatch⟩

namespace Sample

open Workspace (Entry IsFolder)

def searched : List (String × Entry) :=
  [("src", .dir [("a.py", .file [])]), ("node_modules", .dir [("b.py", .file [])]), ("main.py", .file [])]

def reordered : List (String × Entry) :=
  [("main.py", .file []), ("src", .dir [("a.py", .file [])]), ("node_modules", .dir [("b.py", .file [])])]

theorem searched_perm : searched.Perm reordered := by
  have hswapped : (searched.take 2 ++ searched.drop 2).Perm (searched.drop 2 ++ searched.take 2) :=
    List.perm_append_comm
  exact hswapped

theorem wellNamed_of_perm {children : List (String × Entry)} (hfolder : IsFolder children)
    (hsame : searched.Perm children) : (Tree.mk "/w" children).WellNamed := by
  refine Tree.wellNamed_of_children hfolder ?_
  intro name inner h
  have hmem := hsame.mem_iff.mpr h
  simp only [searched, List.mem_cons, Prod.mk.injEq, reduceCtorEq, and_false, Entry.dir.injEq,
    List.not_mem_nil, or_false] at hmem
  rcases hmem with ⟨_, rfl⟩ | ⟨_, rfl⟩
  · exact Tree.wellNamed_of_children (by decide) (by simp)
  · exact Tree.wellNamed_of_children (by decide) (by simp)

theorem entry_searched : (Tree.mk "/w" searched).entry ⟨"/", ["w"]⟩ = .ok (.dir searched) :=
  Workspace.entry_of_no_segments (by decide) (by decide)

end Sample
end Lint
end JudgedLint
