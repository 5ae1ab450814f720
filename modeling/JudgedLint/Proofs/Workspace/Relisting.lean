import JudgedLint.Proofs.Workspace.Walk

/-! Trees that differ in nothing but the order in which their directories list what they hold. Every path
leads to the same place in both, and a walk meets the same. -/
namespace JudgedLint.Workspace

variable {t t' : Tree} {here p start : Path} {children children' : List (String × Entry)}
  {names : List String} {name : String}

def SameFaces (children children' : List (String × Entry)) : Prop :=
  ∀ names, faceAt children' names = faceAt children names

namespace SameFaces

variable (h : SameFaces children children')
include h

theorem symm : SameFaces children' children := fun names => (h names).symm

theorem free (hat : childAt children names = none) : childAt children' names = none :=
  faceAt_eq_none.mp ((h names).trans (faceAt_eq_none.mpr hat))

theorem face {e : Entry} (hat : childAt children names = some e) :
    ∃ e', childAt children' names = some e' ∧ e'.face = e.face := by
  have hface := h names
  rw [faceAt, faceAt, hat] at hface
  exact Option.map_eq_some_iff.mp hface

theorem file {content : Text.Bytes} (hat : childAt children names = some (.file content)) :
    childAt children' names = some (.file content) :=
  faceAt_eq_file.mp ((h names).trans (faceAt_eq_file.mpr hat))

theorem link {target : String} (hat : childAt children names = some (.link target)) :
    childAt children' names = some (.link target) :=
  faceAt_eq_link.mp ((h names).trans (faceAt_eq_link.mpr hat))

theorem dir {inner : List (String × Entry)} (hat : childAt children names = some (.dir inner)) :
    ∃ inner', childAt children' names = some (.dir inner') ∧ SameFaces inner inner' := by
  obtain ⟨inner', hat'⟩ := faceAt_eq_dir.mp ((h names).trans (faceAt_eq_dir.mpr ⟨inner, hat⟩))
  refine ⟨inner', hat', ?_⟩
  intro more
  have hmore := h (names ++ more)
  rwa [faceAt, faceAt, childAt_append more hat, childAt_append more hat'] at hmore

end SameFaces

/-- The same tree, its directories listed in another order. -/
structure Tree.Relisted (t t' : Tree) : Prop where
  root : t'.root = t.root
  faces : SameFaces t.children t'.children

theorem lookup_perm {l l' : List (String × Entry)} (hd : Json.Distinct l) (h : l.Perm l') (name : String) :
    l'.lookup name = l.lookup name := by
  have hd' : Json.Distinct l' := (h.map Prod.fst).nodup_iff.mp hd
  apply Option.ext
  intro e
  constructor
  · exact fun hat => Json.lookup_of_mem hd (h.mem_iff.mpr (Json.mem_of_lookup hat))
  · exact fun hat => Json.lookup_of_mem hd' (h.mem_iff.mp (Json.mem_of_lookup hat))

theorem Tree.Relisted.of_perm {root : String} (hd : Json.Distinct children) (h : children.Perm children') :
    Tree.Relisted ⟨root, children⟩ ⟨root, children'⟩ := by
  refine ⟨rfl, ?_⟩
  intro names
  cases names with
  | nil => rfl
  | cons name rest => rw [faceAt, faceAt, childAt_congr rest (lookup_perm hd h name)]

theorem Tree.Relisted.symm (h : t.Relisted t') : t'.Relisted t := ⟨h.root.symm, h.faces.symm⟩

def Place.face : Place → Option (List String × Option Face)
  | .found names e => some (names, some e.face)
  | .free names => some (names, none)
  | .outside => none

section Relisted

variable (hr : t.Relisted t')
include hr

theorem segments?_relisted (p : Path) : t'.segments? p = t.segments? p := by
  rw [Tree.segments?, Tree.segments?, hr.root]

theorem isAbsolute_relisted (p : Path) : t'.isAbsolute p = t.isAbsolute p := by
  rw [Tree.isAbsolute, Tree.isAbsolute, hr.root]

theorem follow_relisted (last : Bool) (links : Nat) (here segments : List String) :
    (t'.follow last links here segments).map Place.face = (t.follow last links here segments).map Place.face := by
  -- a step depends on the face of one entry only, and both trees go on from the same place
  fun_induction Tree.follow t last links here segments with
  | case1 links here e he =>
    obtain ⟨e', he', hface⟩ := hr.faces.face he
    simp only [Tree.follow, he', Except.map, Place.face, hface]
  | case2 links here hnone => simp only [Tree.follow, hr.faces.free hnone]
  | case3 links rest hall => simp only [Tree.follow, hall, if_true]
  | case4 links rest hall =>
    simp only [Tree.follow, hall]
    simp
  | case5 links here rest hne ih =>
    simp only [Tree.follow]
    exact ih
  | case6 links here name rest hup hlong => simp only [Tree.follow, hlong, if_true]
  | case7 links here name rest hup hshort hnone hend =>
    simp only [Tree.follow, hshort, hr.faces.free hnone, hend, if_true, if_false]
  | case8 links here name rest hup hshort hnone hmore =>
    simp only [Tree.follow, hshort, hr.faces.free hnone, hmore, if_false]
    simp
  | case9 links here name rest hup hshort inner hdir ih =>
    obtain ⟨inner', hdir', _⟩ := hr.faces.dir hdir
    simp only [Tree.follow, hshort, hdir', if_false]
    exact ih
  | case10 links here name rest hup hshort bs hfile hend =>
    simp only [Tree.follow, hshort, hr.faces.file hfile, hend, if_true, if_false]
  | case11 links here name rest hup hshort bs hfile hmore =>
    simp only [Tree.follow, hshort, hr.faces.file hfile, hmore, if_false]
    simp
  | case12 links here name rest hup hshort target htarget hend =>
    simp only [Tree.follow, hshort, hr.faces.link htarget, hend, if_true, if_false]
  | case13 here name rest hup hshort target htarget hmore =>
    simp only [Tree.follow, hshort, hr.faces.link htarget, hmore, if_false]
    simp
  | case14 here name rest hup hshort target htarget hmore links p hp =>
    have hp' : t'.segments? (Path.ofText target) = none := (segments?_relisted hr _).trans hp
    simp only [Tree.follow, hshort, hr.faces.link htarget, hmore, hp', if_false]
    simp
  | case15 here name rest hup hshort target htarget hmore links p segments hp ih =>
    have hp' : t'.segments? (Path.ofText target) = some segments := (segments?_relisted hr _).trans hp
    simp only [Tree.follow, hshort, hr.faces.link htarget, hmore, hp', isAbsolute_relisted hr, if_false]
    exact ih

theorem locate_relisted (p : Path) : (t'.locate p).map Place.face = (t.locate p).map Place.face := by
  unfold Tree.locate
  split
  · rfl
  · rw [segments?_relisted hr]
    split
    · rfl
    · exact follow_relisted hr _ _ _ _

end Relisted

theorem leadsToDir_eq (t : Tree) (p : Path) : t.leadsToDir p =
    match (t.locate p).map Place.face with
    | .ok (some (_, face)) => face == some .dir
    | .ok none => true
    | .error _ => false := by
  unfold Tree.leadsToDir Tree.isDir Tree.test Tree.entry
  cases t.locate p with
  | error r =>
    cases hmeans : r.meansAbsent with
    | true => simp only [refused, hmeans, if_true, Except.map]
    | false => simp only [refused, hmeans, Bool.false_eq_true, if_false, Except.map]
  | ok place =>
    cases place with
    | found names e => cases e <;> rfl
    | free names => rfl
    | outside => rfl

theorem leadsToDir_relisted (hr : t.Relisted t') (p : Path) : t'.leadsToDir p = t.leadsToDir p := by
  rw [leadsToDir_eq, leadsToDir_eq, locate_relisted hr]

theorem countsAsDir_relisted (hr : t.Relisted t') (p : Path) {e e' : Entry} (hface : e'.face = e.face) :
    t'.countsAsDir p e' = t.countsAsDir p e := by
  cases e with
  | file content =>
    cases e' with
    | file content' => rfl
    | link target => cases hface
    | dir inner => cases hface
  | link target =>
    cases e' with
    | file content => cases hface
    | link target' => exact leadsToDir_relisted hr p
    | dir inner => cases hface
  | dir inner =>
    cases e' with
    | file content => cases hface
    | link target => cases hface
    | dir inner' => rfl

theorem Tree.Meets.relisted (h : t.Meets here children names) (hr : t.Relisted t')
    (hf : SameFaces children children') : t'.Meets here children' names := by
  induction h generalizing children' with
  | @file here children name e hat hfile hshown =>
    have hhere : childAt children [name] = some e := hat
    obtain ⟨e', hat', hface⟩ := hf.face hhere
    exact .file hat' ((countsAsDir_relisted hr _ hface).trans hfile) hshown
  | @dir here children inner name rest hat hsearched _ ih =>
    have hhere : childAt children [name] = some (.dir inner) := hat
    obtain ⟨inner', hat', hinner⟩ := hf.dir hhere
    exact .dir hat' hsearched (ih hinner)

/-- A path leads to a directory below the working directory, or to one outside of which nothing is known. -/
theorem entry_dir_cases (h : t.entry p = .ok (.dir children)) :
    (∃ names, t.locate p = .ok (.found names (.dir children))) ∨ t.locate p = .ok .outside ∧ children = [] := by
  unfold Tree.entry at h
  split at h
  · next names e hlocate =>
    cases h
    exact .inl ⟨names, hlocate⟩
  · next hlocate =>
    cases h
    exact .inr ⟨hlocate, rfl⟩
  · cases h
  · cases h

theorem entry_relisted (hr : t.Relisted t') (h : t.entry p = .ok (.dir children)) :
    ∃ children', t'.entry p = .ok (.dir children') ∧ SameFaces children children' := by
  have hlocate := locate_relisted hr p
  rcases entry_dir_cases h with ⟨names, hfound⟩ | ⟨houtside, rfl⟩
  · obtain ⟨children', hat', hf⟩ := hr.faces.dir (locate_sound hfound).1
    rw [hfound] at hlocate
    obtain ⟨place, hfound', hface⟩ := map_eq_ok.mp hlocate
    cases place with
    | free => cases hface
    | outside => cases hface
    | found names' e =>
      have hsame : names' = names := congrArg Prod.fst (Option.some.inj hface)
      subst hsame
      obtain rfl : e = .dir children' := Option.some.inj ((locate_sound hfound').1.symm.trans hat')
      refine ⟨children', ?_, hf⟩
      rw [Tree.entry, hfound']
  · rw [houtside] at hlocate
    obtain ⟨place, houtside', hface⟩ := map_eq_ok.mp hlocate
    cases place with
    | free => cases hface
    | found => cases hface
    | outside =>
      refine ⟨[], ?_, fun _ => rfl⟩
      rw [Tree.entry, houtside']

/-- What below a directory is neither hidden nor a directory, nor reached by way of a hidden or ignored
directory or of a link. -/
def Tree.Eligible (t : Tree) (start : Path) (names : List String) : Prop :=
  ∃ children, t.entry start = .ok (.dir children) ∧ t.Meets start children names

theorem Tree.Eligible.relisted (h : t.Eligible start names) (hr : t.Relisted t') : t'.Eligible start names := by
  obtain ⟨children, he, hmeets⟩ := h
  obtain ⟨children', he', hf⟩ := entry_relisted hr he
  exact ⟨children', he', hmeets.relisted hr hf⟩

theorem Tree.WellNamed.distinctBelow (hn : t.WellNamed) (h : t.entry p = .ok (.dir children)) :
    DistinctBelow children := by
  intro names inner hinner
  rcases entry_dir_cases h with ⟨above, hfound⟩ | ⟨_, rfl⟩
  · have hat : childAt t.children (above ++ names) = some (.dir inner) := by
      rw [childAt_append names (locate_sound hfound).1]
      exact hinner
    exact (hn _ inner hat).distinct
  · cases names with
    | nil =>
      cases hinner
      exact List.nodup_nil
    | cons name names =>
      rw [childAt_nil_cons] at hinner
      cases hinner

theorem listsBelow_walked (hn : t.WellNamed) (start : Path) :
    ListsBelow start (t.walked start) (t.Eligible start) := by
  unfold Tree.walked
  split
  · next children he =>
    refine (listsBelow_walk (hn.distinctBelow he) (Nat.le_refl _)).congr ?_
    intro names
    constructor
    · intro hmeets
      exact ⟨children, he, hmeets⟩
    · rintro ⟨children', he', hmeets⟩
      cases he.symm.trans he'
      exact hmeets
  · next hno =>
    refine .nil ?_
    rintro names ⟨children, he, _⟩
    exact hno children he

end JudgedLint.Workspace
