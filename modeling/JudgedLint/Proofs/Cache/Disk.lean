import JudgedLint.Cache.Store
import JudgedLint.Proofs.Except
import JudgedLint.Proofs.Workspace.Standing

/-! The cache file: what loading finds where a file stands or none, and what saving leaves there. A
save that fails leaves every file as it was. -/
namespace JudgedLint.Cache

open Text (Bytes utf8Encode)
open Workspace (Path Tree LeadsTo)

namespace Store

variable {s loaded : Store} {t t' : Tree} {notes : List Log.Record}

/-- The cache file stands at its path, with this content. -/
def Holds (s : Store) (t : Tree) (content : Bytes) : Prop := t.standing s.path = some (.file content)

/-- Nothing stands at the path of the cache file, and nothing will when directories on the way to it
are made. -/
def Absent (s : Store) (t : Tree) : Prop := ∀ t', Tree.Paved s.dir t t' → t'.standing s.path = none

/-- There is a cache file, or there is none; there is no link or directory in its place. -/
def Regular (s : Store) (t : Tree) : Prop := s.Absent t ∨ ∃ content, s.Holds t content

theorem path_eq {s s' : Store} (h : s.dir = s'.dir) : s.path = s'.path := by
  rw [path, path, h]

theorem Holds.of_dir {s s' : Store} {content : Bytes} (hs : s.Holds t content) (h : s.dir = s'.dir) :
    s'.Holds t content := by
  rwa [Holds, ← path_eq h]

theorem Absent.of_dir {s s' : Store} (hs : s.Absent t) (h : s.dir = s'.dir) : s'.Absent t := by
  rwa [Absent, ← path_eq h, ← h]

theorem Regular.of_dir {s s' : Store} (hs : s.Regular t) (h : s.dir = s'.dir) : s'.Regular t := by
  rcases hs with habsent | ⟨content, hholds⟩
  · exact .inl (habsent.of_dir h)
  · exact .inr ⟨content, hholds.of_dir h⟩

theorem Absent.standing (h : s.Absent t) : t.standing s.path = none := h t .refl

/-- Below an absolute working directory, and without `..` on the way to it, a cache file is absent just
if nothing stands in its place. -/
theorem absent_iff (hroot : (Workspace.Path.ofText t.root).lead ≠ "") (hup : ".." ∉ s.dir.parts) :
    s.Absent t ↔ t.standing s.path = none := by
  refine ⟨Absent.standing, fun hnone t' hp => ?_⟩
  have hup' : ".." ∉ s.dir.parts ++ [fileName] := by
    rw [List.mem_append, not_or]
    exact ⟨hup, by decide⟩
  exact (Workspace.Paved.standing_child hroot hup' hp hnone).1

theorem Absent.paved (h : s.Absent t) (hp : Tree.Paved s.dir t t') : s.Absent t' := by
  intro t'' hp'
  exact h t'' (hp.trans hp')

theorem load_cases (h : s.load t = .ok (loaded, notes)) :
    loaded = { s with document := {} } ∨
      ∃ bytes d, t.read s.path = .ok bytes ∧ decode bytes = .ok (.ok d) ∧
        loaded = { s with document := d } := by
  simp only [load] at h
  split at h
  · split at h
    · cases h
      exact .inl rfl
    · split at h
      · cases h
      · cases h
        exact .inl rfl
  · next bytes hbytes =>
    obtain ⟨r, hr, h⟩ := bind_eq_ok.mp h
    rw [mapError_eq_ok] at hr
    cases r with
    | error damage =>
      cases h
      exact .inl rfl
    | ok d =>
      cases h
      exact .inr ⟨bytes, d, hbytes, hr, rfl⟩

theorem load_dir (h : s.load t = .ok (loaded, notes)) : loaded.dir = s.dir := by
  rcases load_cases h with rfl | ⟨bytes, d, _, _, rfl⟩
  · rfl
  · rfl

theorem load_of_dir {s s' : Store} (h : s.dir = s'.dir) (t : Tree) : s.load t = s'.load t := by
  cases s
  cases s'
  cases h
  rfl

theorem load_of_absent (hs : s.Absent t) (h : s.load t = .ok (loaded, notes)) :
    loaded = { s with document := {} } := by
  rcases load_cases h with hempty | ⟨bytes, d, hread, _, _⟩
  · exact hempty
  · obtain ⟨e, he⟩ := Workspace.read_of_standing_none hs.standing
    cases he.symm.trans hread

def Quiet (notes : List Log.Record) : Prop := ∀ r ∈ notes, r.level ≠ .warning

theorem load_of_read {content : Bytes} {d : Document} (hr : t.read s.path = .ok content)
    (hd : decode content = .ok (.ok d)) :
    ∃ notes, s.load t = .ok ({ s with document := d }, notes) ∧ Quiet notes := by
  simp only [Store.load, hr, hd]
  refine ⟨_, rfl, ?_⟩
  intro r hr hlevel
  rw [List.mem_singleton.mp hr] at hlevel
  cases hlevel

theorem Holds.read {content : Bytes} (hs : s.Holds t content)
    (hnul : (s.path.parts.any fun part => part.toList.contains '\x00') = false) :
    t.read s.path = .ok content := by
  rw [Workspace.read_of_standing_file hs, Workspace.withPath, hnul]
  rfl

theorem Holds.load {content : Bytes} {d : Document} (hs : s.Holds t content)
    (hnul : (s.path.parts.any fun part => part.toList.contains '\x00') = false)
    (hd : decode content = .ok (.ok d)) :
    ∃ notes, s.load t = .ok ({ s with document := d }, notes) ∧ Quiet notes :=
  load_of_read (hs.read hnul) hd

theorem Holds.read_cases {content : Bytes} (hs : s.Holds t content) :
    t.read s.path = .ok content ∨ t.read s.path = Workspace.refused s.path .embeddedNul := by
  cases hnul : s.path.parts.any fun part => part.toList.contains '\x00' with
  | false => exact .inl (hs.read hnul)
  | true =>
    right
    rw [Workspace.read_of_standing_file hs, Workspace.withPath, hnul]
    rfl

theorem load_of_holds {content : Bytes} {d : Document} (hs : s.Holds t content)
    (hd : decode content = .ok (.ok d)) (h : s.load t = .ok (loaded, notes)) :
    loaded = { s with document := d } := by
  rcases hs.read_cases with hread | hread
  · obtain ⟨notes', hload, _⟩ := load_of_read hread hd
    cases hload.symm.trans h
    rfl
  · rw [Store.load, hread] at h
    cases h

/-- What a save that succeeds does: the directory is there, and the encoded document is put in the
place to which the path leads. -/
structure SavedTo (s : Store) (t t' : Tree) (paved : Tree) (place : List String) : Prop where
  made : t.makeDirs s.dir = (.ok (), paved)
  writable : s.document.unwritable? = none
  leads : paved.locateLink s.path = .ok (.free place) ∨
    ∃ e, paved.locateLink s.path = .ok (.found place e) ∧ e.isDir = false
  result : t' = paved.put place (.file (utf8Encode (encode s.document)))

theorem put_ok {paved : Tree} (hm : t.makeDirs s.dir = (.ok (), paved))
    (h : s.put paved = .ok t') : ∃ place, SavedTo s t t' paved place := by
  simp only [Store.put] at h
  split at h
  · cases h
  · next hw =>
    rw [mapError_eq_ok] at h
    simp only [Tree.replace, Workspace.withPath] at h
    split at h
    · cases h
    · split at h
      · next names e hl =>
        split at h
        · cases h
        · next hdir =>
          cases h
          exact ⟨names, hm, hw, .inr ⟨e, hl, by simpa using hdir⟩, rfl⟩
      · next names hl =>
        cases h
        exact ⟨names, hm, hw, .inl hl, rfl⟩
      · cases h
      · cases h

theorem save_ok (h : s.save t = (.ok notes, t')) : ∃ paved place, SavedTo s t t' paved place := by
  simp only [save] at h
  generalize hm : t.makeDirs s.dir = m at h
  obtain ⟨r, paved⟩ := m
  cases r with
  | error e => cases h
  | ok u =>
    simp only at h
    split at h
    · cases h
    · next hput =>
      cases h
      exact ⟨paved, put_ok hm hput⟩

theorem put_noNul (h : s.put t = .ok t') :
    (s.path.parts.any fun part => part.toList.contains '\x00') = false := by
  simp only [Store.put] at h
  split at h
  · cases h
  · rw [mapError_eq_ok] at h
    simp only [Tree.replace, Workspace.withPath] at h
    split at h
    · cases h
    · next hnul => exact Bool.eq_false_iff.mpr hnul

theorem save_noNul (h : s.save t = (.ok notes, t')) :
    (s.path.parts.any fun part => part.toList.contains '\x00') = false := by
  simp only [save] at h
  split at h
  · cases h
  · split at h
    · cases h
    · next hput => exact put_noNul hput

theorem SavedTo.save {paved : Tree} {place : List String} (h : SavedTo s t t' paved place)
    (hnul : (s.path.parts.any fun part => part.toList.contains '\x00') = false) :
    ∃ notes, s.save t = (.ok notes, t') := by
  have hput : s.put paved = .ok t' := by
    simp only [Store.put, h.writable, Tree.replace, Workspace.withPath, hnul, Bool.false_eq_true, if_false]
    rcases h.leads with hfree | ⟨e, hfound, hdir⟩
    · simp only [hfree, h.result, Except.mapError]
    · simp only [hfound, hdir, Bool.false_eq_true, if_false, h.result, Except.mapError]
  simp only [Store.save, h.made, hput]
  exact ⟨_, rfl⟩

/-- Whether a path takes content does not depend on the content. -/
theorem replace_of_replace {source : String} {p : Workspace.Path} {content : Bytes}
    (h : t.replace source p content = .ok t') (content' : Bytes) :
    ∃ t'', t.replace source p content' = .ok t'' := by
  simp only [Tree.replace, Workspace.withPath] at h ⊢
  split at h
  · cases h
  · next hnul =>
    rw [if_neg hnul]
    split at h
    · split at h
      · cases h
      · next hdir => exact ⟨_, if_neg hdir⟩
    · exact ⟨_, rfl⟩
    · cases h
    · cases h

theorem put_of_put {s s' : Store} (hdir : s.dir = s'.dir) (hw : s'.document.unwritable? = none)
    (h : s.put t = .ok t') : ∃ t'', s'.put t = .ok t'' := by
  simp only [Store.put] at h
  split at h
  · cases h
  · rw [mapError_eq_ok, path_eq hdir] at h
    obtain ⟨t'', hreplace⟩ := replace_of_replace h (utf8Encode (encode s'.document))
    exact ⟨t'', by simp only [Store.put, hw, hreplace, Except.mapError]⟩

/-- One document can be saved where another can, if its texts can be written. -/
theorem save_of_save {s s' : Store} (hdir : s.dir = s'.dir) (hw : s'.document.unwritable? = none)
    (h : s.save t = (.ok notes, t')) : ∃ notes' t'', s'.save t = (.ok notes', t'') := by
  simp only [save, hdir] at h ⊢
  generalize t.makeDirs s'.dir = m at h ⊢
  obtain ⟨r, paved⟩ := m
  cases r with
  | error e => cases h
  | ok u =>
    simp only at h ⊢
    split at h
    · cases h
    · next hput =>
      obtain ⟨t'', hput'⟩ := put_of_put hdir hw hput
      rw [hput']
      exact ⟨_, t'', rfl⟩

/-- It is for a text that a save fails, if it is not for the system. -/
theorem save_text_error {e : Text.EncodeError} (h : s.save t = (.error (.text e), t')) :
    s.document.unwritable? = some e := by
  simp only [save] at h
  split at h
  · cases h
  · split at h
    · next hput =>
      cases h
      simp only [Store.put] at hput
      split at hput
      · next hw =>
        cases hput
        exact hw
      · cases hr : Tree.replace _ temporaryName s.path (utf8Encode (encode s.document)) with
        | error f =>
          rw [hr] at hput
          cases hput
        | ok t'' =>
          rw [hr] at hput
          cases hput
    · cases h

/-- A save that fails does no more than make directories. -/
theorem save_error {e : SaveError} (h : s.save t = (.error e, t')) : t' = (t.makeDirs s.dir).2 := by
  simp only [save] at h
  generalize t.makeDirs s.dir = m at h ⊢
  obtain ⟨r, paved⟩ := m
  cases r with
  | error e =>
    cases h
    rfl
  | ok u =>
    simp only at h
    split at h
    · cases h
      rfl
    · cases h

theorem makeDirs_paved (s : Store) (t : Tree) : Tree.Paved s.dir t (t.makeDirs s.dir).2 :=
  Workspace.makeDirs_paved rfl

theorem save_error_files {e : SaveError} (h : s.save t = (.error e, t')) : t'.files = t.files := by
  rw [save_error h]
  exact Workspace.Paved.files (makeDirs_paved s t)

theorem Holds.save_error {content : Bytes} {e : SaveError} (hs : s.Holds t content)
    (h : s.save t = (.error e, t')) : s.Holds t' content := by
  rw [Store.save_error h, Workspace.makeDirs_of_standing hs]
  exact hs

theorem Absent.save_error {e : SaveError} (hs : s.Absent t) (h : s.save t = (.error e, t')) :
    s.Absent t' := by
  rw [Store.save_error h]
  exact hs.paved (makeDirs_paved s t)

/-- Once it is saved, the document stands where the cache file is looked for. -/
theorem Regular.save_ok (hs : s.Regular t) (h : s.save t = (.ok notes, t')) :
    s.Holds t' (utf8Encode (encode s.document)) := by
  obtain ⟨paved, place, hsaved⟩ := Store.save_ok h
  have hpaved : (t.makeDirs s.dir).2 = paved := by rw [hsaved.made]
  rw [Holds, hsaved.result]
  refine Workspace.standing_put ?_
  rcases hsaved.leads with hfree | ⟨e, hfound, _⟩
  · exact .inl hfree
  · have hstanding : paved.standing s.path = some e := by simp only [Tree.standing, hfound]
    rcases hs with habsent | ⟨content, hholds⟩
    · have hnone := (habsent.paved (makeDirs_paved s t)).standing
      rw [hpaved, hstanding] at hnone
      cases hnone
    · rw [Workspace.makeDirs_of_standing hholds] at hpaved
      rw [← hpaved, hholds] at hstanding
      cases hstanding
      exact .inr ⟨content, hfound⟩

theorem clear_eq_ok {s' : Store} (h : s.clear t = .ok (s', t')) :
    s' = { s with document := {} } ∧ t.remove s.path true = .ok t' := by
  obtain ⟨removed, hr, h⟩ := bind_eq_ok.mp h
  cases h
  exact ⟨rfl, hr⟩

theorem Absent.remove (hs : s.Absent t) (h : t.remove s.path true = .ok t') : t' = t := by
  have hnone := hs.standing
  simp only [Tree.standing] at hnone
  simp only [Tree.remove, Workspace.withPath] at h
  split at h
  · cases h
  · split at h
    · next hfound =>
      rw [hfound] at hnone
      cases hnone
    · cases h
    · cases h
      rfl
    · split at h
      · cases h
        rfl
      · cases h

/-- Where the cache file was taken away, no directory is missing, so nothing comes to stand there. -/
theorem Holds.remove {content : Bytes} (hs : s.Holds t content) (hroot : (Path.ofText t.root).lead ≠ "")
    (h : t.remove s.path true = .ok t') : s.Absent t' ∧ t'.root = t.root := by
  obtain ⟨place, hl⟩ := Workspace.locateLink_of_standing hs
  have hwithout : t' = t.without place := by
    simp only [Tree.remove, Workspace.withPath] at h
    split at h
    · cases h
    · rw [hl] at h
      cases h
      rfl
  have hfree : t'.locateLink s.path = .ok (.free place) := by
    rw [hwithout]
    exact Workspace.locateLink_without (.inr ⟨content, hl⟩)
  have hroot' : t'.root = t.root := by rw [hwithout]; rfl
  refine ⟨fun t'' hp => ?_, hroot'⟩
  rw [Workspace.Paved.eq_of_free (by rwa [hroot']) hfree hp]
  simp only [Tree.standing, hfree]

theorem save_root (h : s.save t = (.ok notes, t')) : t'.root = t.root := by
  obtain ⟨paved, place, hsaved⟩ := Store.save_ok h
  have hp := makeDirs_paved s t
  rw [hsaved.made] at hp
  have hput : t'.root = paved.root := by rw [hsaved.result]; rfl
  exact hput.trans (Workspace.Paved.root hp)

end Store

/-! ### A directory with one file, and a cache -/

namespace Sample

open Store (Quiet encode decode)

def store (d : Document) : Store := ⟨⟨"", [".ai-lint"]⟩, d⟩

def source : Workspace.Entry := .file [112]

def bare : Tree := ⟨"/work", [("a.py", source)]⟩

def cached (content : Bytes) : Tree :=
  ⟨"/work", [("a.py", source), (".ai-lint", .dir [("cache.json", .file content)])]⟩

def kept (d : Document) : Tree := cached (utf8Encode (encode d))

theorem root_lead : (Path.ofText "/work").lead ≠ "" := by decide

theorem segments?_relative (children : List (String × Workspace.Entry)) (names : List String) :
    (Tree.mk "/work" children).segments? ⟨"", names⟩ = some names :=
  Workspace.segments?_of_not_root (by simp [root_lead.symm]) rfl

theorem store_dir_short : ¬Workspace.isTooLong (store {}).dir = true := by decide

theorem store_path_short : ¬Workspace.isTooLong (store {}).path = true := by decide

theorem dirName_short : ¬Workspace.longestName < ".ai-lint".utf8ByteSize := by decide

theorem fileName_short : ¬Workspace.longestName < "cache.json".utf8ByteSize := by decide

theorem noNul : ((store {}).path.parts.any fun part => part.toList.contains '\x00') = false := by decide

theorem locate_bare : bare.locateLink (store {}).path = .error .noEntry := by
  rw [Tree.locateLink, if_neg store_path_short]
  simp only [store, bare, Store.path, Path.child, segments?_relative]
  simp [Tree.follow, dirName_short, Workspace.childAt]
  rfl

theorem absent : (store {}).Absent bare := by
  rw [Store.absent_iff root_lead (by decide)]
  simp only [Tree.standing, locate_bare]

theorem locate_cached (content : Bytes) : (cached content).locateLink (store {}).path =
    .ok (.found [".ai-lint", "cache.json"] (.file content)) := by
  rw [Tree.locateLink, if_neg store_path_short]
  simp only [store, cached, Store.path, Path.child, Cache.fileName, segments?_relative]
  simp [Tree.follow, dirName_short, fileName_short, Workspace.childAt]
  rfl

theorem holds_cached (content : Bytes) : (store {}).Holds (cached content) content := by
  unfold Store.Holds Tree.standing
  rw [locate_cached]

theorem load_bare : (store {}).load bare = .ok (store {}, []) := by
  have hlocate : bare.locate (store {}).path = .error .noEntry :=
    (Workspace.locate_of_not_link (by simp [locate_bare])).trans locate_bare
  have hread : bare.read (store {}).path = Workspace.refused (store {}).path .noEntry := by
    simp only [Tree.read, Workspace.withPath, Tree.entry, hlocate]
    rfl
  rw [Store.load, hread]
  rfl

theorem load_cached {content : Bytes} {d : Document} (hd : decode content = .ok (.ok d)) :
    ∃ notes, (store {}).load (cached content) = .ok (store d, notes) ∧ Quiet notes :=
  (holds_cached content).load noNul hd

def paved : Tree := ⟨"/work", [("a.py", source), (".ai-lint", .dir [])]⟩

theorem makeDirs_bare : bare.makeDirs (store {}).dir = (.ok (), paved) := by
  have hdir : bare.locateLink (store {}).dir = .ok (.free [".ai-lint"]) := by
    rw [Tree.locateLink, if_neg store_dir_short]
    simp only [store, bare, segments?_relative]
    simp [Tree.follow, dirName_short, Workspace.childAt]
    rfl
  have hmade : bare.makeDir (store {}).dir = .ok paved := by
    simp [Tree.makeDir, Workspace.withPath, hdir]
    rfl
  exact Workspace.makeDirs_of_makeDir hmade

theorem save_bare {d : Document} (hw : d.unwritable? = none) :
    ∃ notes, (store d).save bare = (.ok notes, kept d) := by
  have hplace : paved.locateLink (store {}).path = .ok (.free [".ai-lint", "cache.json"]) := by
    rw [Tree.locateLink, if_neg store_path_short]
    simp only [store, paved, Store.path, Path.child, Cache.fileName, segments?_relative]
    simp [Tree.follow, dirName_short, fileName_short, Workspace.childAt]
    rfl
  exact Store.SavedTo.save ⟨makeDirs_bare, hw, .inl hplace, rfl⟩ noNul

theorem save_bare_unwritable {d : Document} {e : Text.EncodeError} (hw : d.unwritable? = some e) :
    (store d).save bare = (.error (.text e), paved) := by
  have hdir : (store d).dir = (store {}).dir := rfl
  have hput : (store d).put paved = .error (.text e) := by
    have hstore : (store d).document.unwritable? = some e := hw
    simp only [Store.put, hstore]
  simp only [Store.save, hdir, makeDirs_bare, hput]

theorem save_cached (content : Bytes) {d : Document} (hw : d.unwritable? = none) :
    ∃ notes, (store d).save (cached content) = (.ok notes, kept d) := by
  have hdir : (cached content).locateLink (store {}).dir =
      .ok (.found [".ai-lint"] (.dir [("cache.json", .file content)])) := by
    rw [Tree.locateLink, if_neg store_dir_short]
    simp only [store, cached, segments?_relative]
    simp [Tree.follow, dirName_short, Workspace.childAt]
    rfl
  have hisDir : (cached content).isDir (store {}).dir = .ok true := by
    have hlocate : (cached content).locate (store {}).dir = (cached content).locateLink (store {}).dir :=
      Workspace.locate_of_not_link (by simp [hdir])
    simp [Tree.isDir, Tree.test, Tree.entry, hlocate, hdir]
    rfl
  have hthere : (cached content).makeDir (store {}).dir = Workspace.refused (store {}).dir .exists := by
    unfold Tree.makeDir Workspace.withPath
    rw [hdir]
    rfl
  have hmade : (cached content).makeDirs (store {}).dir = (.ok (), cached content) := by
    rw [Workspace.makeDirs_of_refused hthere rfl, Tree.makeDirs.unlessThere, hisDir]
  exact Store.SavedTo.save ⟨hmade, hw, .inr ⟨_, locate_cached content, rfl⟩, rfl⟩ noNul

end Sample

end JudgedLint.Cache
