import JudgedLint.Proofs.Workspace.Follow
import Mathlib.Logic.Function.Iterate
import Mathlib.Logic.Relation

/-! What stands at a path, and what becomes of it when directories on the way to it are made or a
file is put there. -/
namespace JudgedLint.Workspace

open Text (Bytes)

variable {t t' : Tree} {p : Path}

/-- The entry that a path names; a link at its end is not followed. -/
def Tree.standing (t : Tree) (p : Path) : Option Entry :=
  match t.locateLink p with
  | .ok (.found _ e) => some e
  | _ => none

theorem locate_of_not_link
    (h : ∀ names target, t.locateLink p ≠ .ok (.found names (.link target))) :
    t.locate p = t.locateLink p := by
  simp only [Tree.locate, Tree.locateLink] at h ⊢
  split
  · rfl
  · next hshort =>
    simp only [if_neg hshort] at h
    split
    · rfl
    · next segments hs => exact follow_last (by simpa only [hs] using h)

theorem read_of_standing_none (h : t.standing p = none) : ∃ e, t.read p = .error e := by
  have hlink : ∀ names e, t.locateLink p ≠ .ok (.found names e) := by
    intro names e he
    simp only [Tree.standing, he] at h
    cases h
  simp only [Tree.read, withPath, Tree.entry, locate_of_not_link fun names target => hlink names _]
  split
  · exact ⟨_, rfl⟩
  · cases hl : t.locateLink p with
    | error r => exact ⟨_, rfl⟩
    | ok place =>
      cases place with
      | found names e => exact absurd hl (hlink names e)
      | free names => exact ⟨_, rfl⟩
      | outside => exact ⟨_, rfl⟩

theorem locateLink_of_standing {e : Entry} (h : t.standing p = some e) :
    ∃ names, t.locateLink p = .ok (.found names e) := by
  simp only [Tree.standing] at h
  split at h
  · next names e' hl =>
    cases h
    exact ⟨names, hl⟩
  · cases h

theorem read_of_standing_file {content : Bytes} (h : t.standing p = some (.file content)) :
    t.read p = withPath p (.ok content) := by
  obtain ⟨names, hl⟩ := locateLink_of_standing h
  have hlocate : t.locate p = t.locateLink p := by
    refine locate_of_not_link fun names' target he => ?_
    rw [hl] at he
    cases he
  simp only [Tree.read, Tree.entry, hlocate, hl]

theorem locateLink_sound {place : Place} (h : t.locateLink p = .ok place) : place.Sound t := by
  simp only [Tree.locateLink] at h
  split at h
  · cases h
  · split at h
    · cases h
    · exact follow_sound t.hasDir_nil h

theorem isFileOrFree_of_leadsTo {place : List String} (h : LeadsTo place (t.locateLink p)) :
    t.IsFileOrFree place := by
  obtain hfree | ⟨content, hfound⟩ := h
  · exact .inl (locateLink_sound hfree).1
  · exact .inr ⟨content, (locateLink_sound hfound).1⟩

theorem hasRoom_of_leadsTo {place : List String} (h : LeadsTo place (t.locateLink p)) :
    t.HasRoom place := by
  obtain hfree | ⟨content, hfound⟩ := h
  · exact (locateLink_sound hfree).2
  · obtain ⟨inner, hdir⟩ | hroom := (locateLink_sound hfound).2
    · cases hdir
    · exact hroom

theorem locateLink_agreesApart_other {place goal : List String} (ha : t.AgreesApart t' place)
    (hold : t.IsFileOrFree place) (hnew : t'.IsFileOrFree goal) (h : LeadsTo goal (t.locateLink p)) :
    t'.locateLink p = .ok (t'.endAt goal) := by
  simp only [Tree.locateLink, ha.segments?] at h ⊢
  split at h
  · obtain h | ⟨bs, h⟩ := h <;> cases h
  · next hshort =>
    rw [if_neg hshort]
    split at h
    · obtain h | ⟨bs, h⟩ := h <;> cases h
    · next segments hs => exact follow_agreesApart ha hold hnew t.hasDir_nil h

theorem locateLink_agreesApart {place : List String} (ha : t.AgreesApart t' place)
    (hnew : t'.IsFileOrFree place) (h : LeadsTo place (t.locateLink p)) :
    t'.locateLink p = .ok (t'.endAt place) :=
  locateLink_agreesApart_other ha (isFileOrFree_of_leadsTo h) hnew h

theorem standing_put {place : List String} {content : Bytes}
    (h : LeadsTo place (t.locateLink p)) :
    (t.put place (.file content)).standing p = some (.file content) := by
  have hroom := hasRoom_of_leadsTo h
  have hfile := childAt_put hroom (.file content)
  have ha : t.AgreesApart (t.put place (.file content)) place :=
    put_agreesApart hroom (isFileOrFree_of_leadsTo h) (by simp)
  rw [Tree.standing, locateLink_agreesApart ha (.inr ⟨content, hfile⟩) h, Tree.endAt, hfile]

theorem locateLink_without {place : List String} (h : LeadsTo place (t.locateLink p)) :
    (t.without place).locateLink p = .ok (.free place) := by
  have hroom := hasRoom_of_leadsTo h
  have hnone := childAt_without hroom
  have ha := without_agreesApart hroom (isFileOrFree_of_leadsTo h)
  rw [locateLink_agreesApart ha (.inl hnone) h, Tree.endAt, hnone]

/-- Some directories on the way to a path are made, the path included. -/
def Tree.Paved (p : Path) : Tree → Tree → Prop :=
  Relation.ReflTransGen fun t t' => ∃ n, t.makeDir (Path.parent^[n] p) = .ok t'

theorem Paved.of_parent (h : Tree.Paved p.parent t t') : Tree.Paved p t t' := by
  induction h with
  | refl => exact .refl
  | tail _ hs ih =>
    obtain ⟨n, hn⟩ := hs
    exact ih.tail ⟨n + 1, hn⟩

theorem makeDirs_last_paved {r : Except FileError Unit} (h : Tree.makeDirs.last t p = (r, t')) :
    Tree.Paved p t t' := by
  simp only [Tree.makeDirs.last] at h
  split at h
  · next made hmade =>
    cases h
    exact .single ⟨0, hmade⟩
  · cases h
    exact .refl

theorem makeDirs_go_paved (fuel : Nat) : ∀ {p : Path} {t t' : Tree} {r : Except FileError Unit},
    Tree.makeDirs.go t p fuel = (r, t') → Tree.Paved p t t' := by
  induction fuel with
  | zero =>
    intro p t t' r h
    exact makeDirs_last_paved h
  | succ fuel ih =>
    intro p t t' r h
    simp only [Tree.makeDirs.go] at h
    split at h
    · next made hmade =>
      cases h
      exact .single ⟨0, hmade⟩
    · split at h
      · split at h
        · next above habove => exact (Paved.of_parent (ih habove)).trans (makeDirs_last_paved h)
        · exact Paved.of_parent (ih h)
      · cases h
        exact .refl

theorem makeDirs_paved {r : Except FileError Unit} (h : t.makeDirs p = (r, t')) :
    Tree.Paved p t t' :=
  makeDirs_go_paved _ h

theorem makeDirs_of_makeDir (h : t.makeDir p = .ok t') : t.makeDirs p = (.ok (), t') := by
  simp only [Tree.makeDirs]
  cases p.parts.length with
  | zero => simp only [Tree.makeDirs.go, Tree.makeDirs.last, h]
  | succ fuel => simp only [Tree.makeDirs.go, h]

theorem makeDirs_of_refused {e : FileError} (h : t.makeDir p = .error e)
    (hr : (e.refusal == .noEntry) = false) :
    t.makeDirs p = (Tree.makeDirs.unlessThere t p e, t) := by
  simp only [Tree.makeDirs]
  cases p.parts.length with
  | zero => simp only [Tree.makeDirs.go, Tree.makeDirs.last, h]
  | succ fuel => simp only [Tree.makeDirs.go, h, hr, Bool.false_and, Bool.false_eq_true, if_false]

theorem makeDir_isDir (h : t.makeDir p = .ok t') : t'.isDir p = .ok true := by
  simp only [Tree.makeDir, withPath] at h
  split at h
  · cases h
  · split at h
    · next names hl =>
      cases h
      obtain ⟨hnew, hroom⟩ := locateLink_sound hl
      have hlocate : (t.put names (.dir [])).locate p = .ok (.found names (.dir [])) := by
        simp only [Tree.locateLink] at hl
        split at hl
        · cases hl
        · next hshort =>
          split at hl
          · cases hl
          · next segments hs =>
            obtain ⟨links, hfollow⟩ := follow_put_empty true [] hroom hnew hl
            have hs' : (t.put names (.dir [])).segments? p = some segments := hs
            rw [List.append_nil] at hfollow
            simp only [Tree.locate, if_neg hshort, hs', hfollow, Tree.follow, childAt_put hroom]
      simp only [Tree.isDir, Tree.test, Tree.entry, hlocate]
      rfl
    · cases h
    · cases h

theorem unlessThere_isDir {e : FileError} (h : Tree.makeDirs.unlessThere t p e = .ok ()) :
    t.isDir p = .ok true := by
  simp only [Tree.makeDirs.unlessThere] at h
  split at h
  · assumption
  · cases h

theorem makeDirs_last_isDir (h : Tree.makeDirs.last t p = (.ok (), t')) : t'.isDir p = .ok true := by
  simp only [Tree.makeDirs.last] at h
  split at h
  · next hmade =>
    cases h
    exact makeDir_isDir hmade
  · obtain ⟨hthere, rfl⟩ := Prod.mk.inj h
    exact unlessThere_isDir hthere

theorem makeDirs_isDir (h : t.makeDirs p = (.ok (), t')) : t'.isDir p = .ok true := by
  simp only [Tree.makeDirs] at h
  cases hfuel : p.parts.length with
  | zero =>
    rw [hfuel, Tree.makeDirs.go] at h
    exact makeDirs_last_isDir h
  | succ fuel =>
    rw [hfuel, Tree.makeDirs.go] at h
    split at h
    · next hmade =>
      cases h
      exact makeDir_isDir hmade
    · split at h
      · split at h
        · exact makeDirs_last_isDir h
        · next hfailed => exact absurd h (hfailed _)
      · obtain ⟨hthere, rfl⟩ := Prod.mk.inj h
        exact unlessThere_isDir hthere

theorem makeDir_files (h : t.makeDir p = .ok t') : t'.files = t.files := by
  simp only [Tree.makeDir, withPath] at h
  split at h
  · cases h
  · split at h
    · next names hl =>
      cases h
      obtain ⟨hnew, above, name, rfl, inner, hinner⟩ := locateLink_sound hl
      exact filesBelow_putAt hinner hnew ""
    · cases h
    · cases h

theorem Paved.files (h : Tree.Paved p t t') : t'.files = t.files := by
  induction h with
  | refl => rfl
  | tail _ hs ih =>
    obtain ⟨n, hn⟩ := hs
    exact (makeDir_files hn).trans ih

theorem segments?_of_root {names : List String}
    (h : (p.lead == (Path.ofText t.root).lead && (Path.ofText t.root).parts.isPrefixOf names) = true)
    (hp : p.parts = names) :
    t.segments? p = some (names.drop (Path.ofText t.root).parts.length) := by
  rw [Tree.segments?, hp]
  exact if_pos h

theorem segments?_of_not_root {names : List String}
    (h : ¬(p.lead == (Path.ofText t.root).lead && (Path.ofText t.root).parts.isPrefixOf names) = true)
    (hp : p.parts = names) : t.segments? p = if p.lead == "" then some names else none := by
  rw [Tree.segments?, hp]
  exact if_neg h

theorem segments?_child {name : String} {segments : List String}
    (h : t.segments? (p.child name) = some segments) :
    segments = [] ∨ ∃ above, segments = above ++ [name] ∧ t.segments? p = some above := by
  by_cases hroot : (p.lead == (Path.ofText t.root).lead &&
      (Path.ofText t.root).parts.isPrefixOf (p.parts ++ [name])) = true
  · rw [segments?_of_root (p := p.child name) hroot rfl] at h
    cases h
    obtain ⟨hlead, hprefix⟩ := Bool.and_eq_true_iff.mp hroot
    rw [List.isPrefixOf_iff_prefix, List.prefix_concat_iff] at hprefix
    rcases hprefix with heq | hprefix
    · rw [heq, List.drop_length]
      exact .inl rfl
    · refine .inr ⟨_, List.drop_append_of_le_length hprefix.length_le, segments?_of_root ?_ rfl⟩
      rw [hlead, Bool.true_and]
      exact List.isPrefixOf_iff_prefix.mpr hprefix
  · rw [segments?_of_not_root (p := p.child name) hroot rfl] at h
    split at h
    · next hrelative =>
      cases h
      refine .inr ⟨p.parts, rfl, ?_⟩
      rw [segments?_of_not_root (p := p) ?_ rfl]
      · exact if_pos hrelative
      · intro hp
        obtain ⟨hlead, hprefix⟩ := Bool.and_eq_true_iff.mp hp
        refine hroot ?_
        rw [hlead, Bool.true_and]
        exact List.isPrefixOf_iff_prefix.mpr
          ((List.isPrefixOf_iff_prefix.mp hprefix).trans (List.prefix_append _ _))
    · cases h

/-- Where a file stands, its directory is known not to be free. -/
theorem locateLink_of_standing_child {name : String} {content : Bytes}
    (h : t.standing (p.child name) = some (.file content)) (hshort : ¬isTooLong p = true) :
    ∃ place, t.locateLink p = .ok place ∧ ∀ names, place ≠ .free names := by
  obtain ⟨names, hl⟩ := locateLink_of_standing h
  simp only [Tree.locateLink] at hl ⊢
  split at hl
  · cases hl
  · split at hl
    · cases hl
    · next segments hs =>
      rcases segments?_child hs with rfl | ⟨above, rfl, habove⟩
      · simp only [Tree.follow, childAt] at hl
        cases hl
      · rw [if_neg hshort, habove]
        cases hf : t.follow false 40 [] above with
        | error r =>
          obtain ⟨r', hr'⟩ := follow_append_error false t.hasDir_nil (by simp : [name] ≠ [])
            (.inl ⟨r, hf⟩)
          rw [hr'] at hl
          cases hl
        | ok place =>
          refine ⟨place, hf, ?_⟩
          rintro names' rfl
          obtain ⟨r', hr'⟩ := follow_append_error false t.hasDir_nil (by simp : [name] ≠ [])
            (.inr ⟨names', hf⟩)
          rw [hr'] at hl
          cases hl

theorem segments?_append {above : List String} (rest : List String)
    (hroot : (Path.ofText t.root).lead ≠ "") (h : t.segments? p = some above) :
    t.segments? ⟨p.lead, p.parts ++ rest⟩ = some (above ++ rest) := by
  by_cases hp : (p.lead == (Path.ofText t.root).lead &&
      (Path.ofText t.root).parts.isPrefixOf p.parts) = true
  · rw [segments?_of_root hp rfl] at h
    cases h
    obtain ⟨hlead, hprefix⟩ := Bool.and_eq_true_iff.mp hp
    have hlong := List.isPrefixOf_iff_prefix.mp hprefix
    rw [segments?_of_root (p := ⟨p.lead, p.parts ++ rest⟩) ?_ rfl]
    · rw [List.drop_append_of_le_length hlong.length_le]
    · rw [hlead, Bool.true_and]
      exact List.isPrefixOf_iff_prefix.mpr (hlong.trans (List.prefix_append _ _))
  · rw [segments?_of_not_root hp rfl] at h
    split at h
    · next hrelative =>
      cases h
      have hlead : (p.lead == (Path.ofText t.root).lead) = false := by
        rw [beq_iff_eq.mp hrelative]
        exact beq_eq_false_iff_ne.mpr hroot.symm
      rw [segments?_of_not_root (p := ⟨p.lead, p.parts ++ rest⟩) (by simp [hlead]) rfl]
      exact if_pos hrelative
    · cases h

theorem iterate_parent (n : Nat) (p : Path) :
    (Path.parent^[n] p).lead = p.lead ∧ ∃ rest, p.parts = (Path.parent^[n] p).parts ++ rest := by
  induction n with
  | zero => exact ⟨rfl, [], (List.append_nil _).symm⟩
  | succ n ih =>
    obtain ⟨hlead, rest, hparts⟩ := ih
    rw [Function.iterate_succ_apply']
    refine ⟨hlead, (Path.parent^[n] p).parts.drop ((Path.parent^[n] p).parts.length - 1) ++ rest, ?_⟩
    rw [hparts, Path.parent, List.dropLast_eq_take, ← List.append_assoc, List.take_append_drop]

/-- A directory that is made on the way to a path is empty, so the path finds nothing in it. -/
theorem standing_of_makeDir {rest : List String} (hroot : (Path.ofText t.root).lead ≠ "")
    (hrest : rest ≠ []) (hup : ".." ∉ rest) (h : t.makeDir p = .ok t') :
    t'.standing ⟨p.lead, p.parts ++ rest⟩ = none := by
  simp only [Tree.makeDir, withPath] at h
  split at h
  · cases h
  · split at h
    · next names hl =>
      cases h
      obtain ⟨hnew, hroom⟩ := locateLink_sound hl
      simp only [Tree.locateLink] at hl
      split at hl
      · cases hl
      · split at hl
        · cases hl
        · next above habove =>
          obtain ⟨links, hfollow⟩ := follow_put_empty false rest hroom hnew hl
          have hsegments : (t.put names (.dir [])).segments? ⟨p.lead, p.parts ++ rest⟩ =
              some (above ++ rest) := segments?_append rest hroot habove
          simp only [Tree.standing, Tree.locateLink, hsegments, hfollow]
          split
          · next names' e hfound =>
            split at hfound
            · cases hfound
            · exact absurd hfound (follow_of_empty (childAt_put hroom _) hrest hup)
          · rfl
    · cases h
    · cases h

theorem makeDir_root (h : t.makeDir p = .ok t') : t'.root = t.root := by
  simp only [Tree.makeDir, withPath] at h
  split at h
  · cases h
  · split at h
    · cases h
      rfl
    · cases h
    · cases h

theorem Paved.root (h : Tree.Paved p t t') : t'.root = t.root := by
  induction h with
  | refl => rfl
  | tail _ hs ih =>
    obtain ⟨n, hn⟩ := hs
    exact (makeDir_root hn).trans ih

/-- Where nothing stands, nothing does when the directories above are made, if no `..` leads out of
them again. -/
theorem Paved.standing_child {name : String} (hroot : (Path.ofText t.root).lead ≠ "")
    (hup : ".." ∉ p.parts ++ [name]) (h : Tree.Paved p t t')
    (hnone : t.standing (p.child name) = none) :
    t'.standing (p.child name) = none ∧ (Path.ofText t'.root).lead ≠ "" := by
  induction h with
  | refl => exact ⟨hnone, hroot⟩
  | tail _ hs ih =>
    obtain ⟨n, hn⟩ := hs
    obtain ⟨hlead, rest, hparts⟩ := iterate_parent n p
    have hchild : p.child name =
        ⟨(Path.parent^[n] p).lead, (Path.parent^[n] p).parts ++ (rest ++ [name])⟩ := by
      rw [Path.child, hlead, hparts, List.append_assoc]
    refine ⟨?_, ?_⟩
    · rw [hchild]
      refine standing_of_makeDir ih.2 (by simp) (fun hmem => hup ?_) hn
      rw [hparts, List.append_assoc]
      exact List.mem_append_right _ hmem
    · rw [makeDir_root hn]
      exact ih.2

/-- No directory can be made above a place that a path leads to. -/
theorem makeDir_ne_ok {rest : List String} {place : Place} (hroot : (Path.ofText t.root).lead ≠ "")
    (hrest : rest ≠ []) (hl : t.locateLink ⟨p.lead, p.parts ++ rest⟩ = .ok place) :
    t.makeDir p ≠ .ok t' := by
  intro hmade
  simp only [Tree.makeDir, withPath] at hmade
  split at hmade
  · cases hmade
  · split at hmade
    · next names hfree =>
      simp only [Tree.locateLink] at hfree
      split at hfree
      · cases hfree
      · split at hfree
        · cases hfree
        · next above habove =>
          obtain ⟨r, hr⟩ := follow_append_error false t.hasDir_nil hrest (.inr ⟨names, hfree⟩)
          simp only [Tree.locateLink, segments?_append rest hroot habove, hr] at hl
          split at hl <;> cases hl
    · cases hmade
    · cases hmade

/-- When a path leads to a free name, the directories above it are all there already. -/
theorem Paved.eq_of_free {name : String} {place : List String} (hroot : (Path.ofText t.root).lead ≠ "")
    (hfree : t.locateLink (p.child name) = .ok (.free place)) (h : Tree.Paved p t t') : t' = t := by
  induction h with
  | refl => rfl
  | tail _ hs ih =>
    obtain ⟨n, hn⟩ := hs
    rw [ih] at hn
    obtain ⟨hlead, rest, hparts⟩ := iterate_parent n p
    have hchild : p.child name =
        ⟨(Path.parent^[n] p).lead, (Path.parent^[n] p).parts ++ (rest ++ [name])⟩ := by
      rw [Path.child, hlead, hparts, List.append_assoc]
    rw [hchild] at hfree
    exact absurd hn (makeDir_ne_ok hroot (by simp) hfree)

theorem makeDirs_of_standing {name : String} {content : Bytes}
    (h : t.standing (p.child name) = some (.file content)) : (t.makeDirs p).2 = t := by
  have hmade : ∃ e, t.makeDir p = .error e ∧ (e.refusal == .noEntry) = false := by
    simp only [Tree.makeDir, withPath]
    split
    · exact ⟨_, rfl, rfl⟩
    · by_cases hlong : isTooLong p = true
      · rw [Tree.locateLink, if_pos hlong]
        exact ⟨_, rfl, rfl⟩
      · obtain ⟨place, hplace, hfree⟩ := locateLink_of_standing_child h hlong
        rw [hplace]
        cases place with
        | free names => exact absurd rfl (hfree names)
        | found names e => exact ⟨_, rfl, rfl⟩
        | outside => exact ⟨_, rfl, rfl⟩
  obtain ⟨e, he, hrefusal⟩ := hmade
  rw [makeDirs_of_refused he hrefusal]

end JudgedLint.Workspace
