import JudgedLint.Proofs.Workspace.Standing

/-! What files hold, by the names that lead to them without links. Making directories leaves every
file as it was; writing one file leaves every other as it was, and the path of the written one leads
to what was written. -/
namespace JudgedLint.Workspace

open Text (Bytes)

def Tree.fileAt (t : Tree) (names : List String) : Option Bytes :=
  match childAt t.children names with
  | some (.file content) => some content
  | _ => none

def Face.content? : Face → Option Bytes
  | .file content => some content
  | _ => none

section

variable {t t' : Tree} {p : Path} {place names : List String} {content : Bytes}

theorem fileAt_of_file (h : childAt t.children names = some (.file content)) :
    t.fileAt names = some content := by
  rw [Tree.fileAt, h]

theorem fileAt_of_none (h : childAt t.children names = none) : t.fileAt names = none := by
  rw [Tree.fileAt, h]

theorem fileAt_of_dir {inner : List (String × Entry)}
    (h : childAt t.children names = some (.dir inner)) : t.fileAt names = none := by
  rw [Tree.fileAt, h]

theorem fileAt_eq (t : Tree) (names : List String) :
    t.fileAt names = (faceAt t.children names).bind Face.content? := by
  rw [Tree.fileAt, faceAt]
  cases childAt t.children names with
  | none => rfl
  | some e => cases e <;> rfl

theorem fileAt_of_faceAt (h : faceAt t'.children names = faceAt t.children names) :
    t'.fileAt names = t.fileAt names := by
  rw [fileAt_eq, fileAt_eq, h]

theorem Tree.AgreesApart.fileAt (h : t.AgreesApart t' place) (hne : names ≠ place) :
    t'.fileAt names = t.fileAt names :=
  fileAt_of_faceAt (h.face names hne)

theorem makeDir_apart (h : t.makeDir p = .ok t') : ∃ place, childAt t.children place = none ∧
    childAt t'.children place = some (.dir []) ∧ t.AgreesApart t' place := by
  simp only [Tree.makeDir, withPath] at h
  split at h
  · cases h
  · split at h
    · next place hl =>
      cases h
      obtain ⟨hnone, hroom⟩ := locateLink_sound hl
      refine ⟨place, hnone, childAt_put hroom _, put_agreesApart hroom (.inl hnone) ?_⟩
      intro below hbelow
      cases hbelow
      rfl
    · cases h
    · cases h

theorem makeDir_fileAt (h : t.makeDir p = .ok t') (names : List String) :
    t'.fileAt names = t.fileAt names := by
  obtain ⟨place, hnone, hdir, ha⟩ := makeDir_apart h
  by_cases hplace : names = place
  · rw [hplace, fileAt_of_none hnone, fileAt_of_dir hdir]
  · exact ha.fileAt hplace

theorem Paved.fileAt (h : Tree.Paved p t t') (names : List String) :
    t'.fileAt names = t.fileAt names := by
  induction h with
  | refl => rfl
  | tail _ hs ih =>
    obtain ⟨n, hn⟩ := hs
    exact (makeDir_fileAt hn names).trans ih

theorem locate_sound {place : Place} (h : t.locate p = .ok place) : place.Sound t := by
  simp only [Tree.locate] at h
  split at h
  · cases h
  · split at h
    · cases h
    · exact follow_sound t.hasDir_nil h

theorem room_of_locate (h : LeadsTo place (t.locate p)) : t.IsFileOrFree place ∧ t.HasRoom place := by
  obtain hfree | ⟨content, hfound⟩ := h
  · obtain ⟨hnone, hroom⟩ := locate_sound hfree
    exact ⟨.inl hnone, hroom⟩
  · obtain ⟨hfile, ⟨inner, hdir⟩ | hroom⟩ := locate_sound hfound
    · cases hdir
    · exact ⟨.inr ⟨content, hfile⟩, hroom⟩

/-- As long as only files have changed, a path leads where it led. -/
theorem locate_agreesApart {goal : List String} (ha : t.AgreesApart t' place)
    (hold : t.IsFileOrFree place) (hnew : t'.IsFileOrFree goal) (h : LeadsTo goal (t.locate p)) :
    t'.locate p = .ok (t'.endAt goal) := by
  simp only [Tree.locate, ha.segments?] at h ⊢
  split at h
  · obtain h | ⟨bs, h⟩ := h <;> cases h
  · next hshort =>
    rw [if_neg hshort]
    split at h
    · obtain h | ⟨bs, h⟩ := h <;> cases h
    · next segments hs => exact follow_agreesApart ha hold hnew t.hasDir_nil h

theorem locate_name {name : String} (hshort : ¬isTooLong p = true)
    (hp : t.segments? p = some [name]) (hup : name ≠ "..")
    (hname : ¬longestName < name.utf8ByteSize) (h : t.IsFileOrFree [name]) :
    t.locate p = .ok (t.endAt [name]) := by
  rw [Tree.locate, if_neg hshort, hp]
  exact follow_endAt h hup hname rfl

theorem read_of_found (hnul : (p.parts.any fun part => part.toList.contains '\x00') = false)
    (h : t.locate p = .ok (.found place (.file content))) : t.read p = .ok content := by
  simp only [Tree.read, withPath, hnul, Bool.false_eq_true, if_false, Tree.entry, h]

theorem write_of_leadsTo (hnul : (p.parts.any fun part => part.toList.contains '\x00') = false)
    (h : LeadsTo place (t.locate p)) (content : Bytes) :
    t.write p content = .ok (t.put place (.file content)) := by
  simp only [Tree.write, withPath, hnul, Bool.false_eq_true, if_false]
  obtain hfree | ⟨old, hfound⟩ := h
  · rw [hfree]
  · rw [hfound]

theorem follow_refusal {last : Bool} {links : Nat} {here segments : List String} {r : Refusal}
    (h : t.follow last links here segments = .error r) : r ≠ .embeddedNul := by
  fun_induction Tree.follow t last links here segments with
  | case1 | case3 | case7 | case10 | case12 => cases h
  | case2 | case4 | case6 | case8 | case11 | case13 | case14 =>
    cases h
    decide
  | case5 links here rest hne ih => exact ih h
  | case9 links here name rest hup hshort inner hdir ih => exact ih h
  | case15 here name rest hup hshort target hlink hend links p segments hp ih => exact ih h

theorem locate_refusal {r : Refusal} (h : t.locate p = .error r) : r ≠ .embeddedNul := by
  unfold Tree.locate at h
  split at h
  · cases h
    decide
  · split at h
    · cases h
      decide
    · exact follow_refusal h

theorem read_refusal (hnul : (p.parts.any fun part => part.toList.contains '\x00') = false)
    {e : FileError} (h : t.read p = .error e) : e.refusal ≠ .embeddedNul := by
  simp only [Tree.read, withPath, hnul, Bool.false_eq_true, if_false, Tree.entry] at h
  cases hlocate : t.locate p with
  | error r =>
    rw [hlocate] at h
    cases h
    exact locate_refusal hlocate
  | ok place =>
    rw [hlocate] at h
    cases place with
    | free names =>
      cases h
      exact Refusal.noConfusion
    | outside =>
      cases h
      exact Refusal.noConfusion
    | found names entry =>
      cases entry with
      | file content => cases h
      | link target =>
        cases h
        exact Refusal.noConfusion
      | dir children =>
        cases h
        exact Refusal.noConfusion

theorem replace_of_outside {name : String} (source : String) (hup : name ≠ "..")
    (h : t.locate p = .ok .outside) (content : Bytes) :
    ∃ e, t.replace source (p.child name) content = .error e := by
  have hlink : (∃ r, t.locateLink (p.child name) = .error r) ∨
      t.locateLink (p.child name) = .ok (.found [] (.dir t.children)) := by
    simp only [Tree.locate] at h
    simp only [Tree.locateLink]
    split
    · exact .inl ⟨_, rfl⟩
    · split
      · exact .inl ⟨_, rfl⟩
      · next segments hs =>
        rcases segments?_child hs with rfl | ⟨above, rfl, habove⟩
        · exact .inr (by simp only [Tree.follow, childAt])
        · split at h
          · cases h
          · rw [habove] at h
            exact .inl (follow_append_outside hup h)
  simp only [Tree.replace, withPath]
  split
  · exact ⟨_, rfl⟩
  · obtain ⟨r, hr⟩ | hfound := hlink
    · rw [hr]
      exact ⟨_, rfl⟩
    · rw [hfound]
      exact ⟨_, rfl⟩

theorem makeDirs_of_dir {inner : List (String × Entry)}
    (hnul : (p.parts.any fun part => part.toList.contains '\x00') = false)
    (h : t.locateLink p = .ok (.found place (.dir inner))) : t.makeDirs p = (.ok (), t) := by
  have hmake : t.makeDir p = refused p .exists := by
    simp only [Tree.makeDir, withPath, hnul, Bool.false_eq_true, if_false, h]
  have hlocate : t.locate p = .ok (.found place (.dir inner)) := by
    rw [locate_of_not_link (by simp [h]), h]
  have hdir : t.isDir p = .ok true := by
    simp only [Tree.isDir, Tree.test, Tree.entry, hlocate]
    rfl
  rw [makeDirs_of_refused hmake rfl, Tree.makeDirs.unlessThere, hdir]

theorem fileAt_of_read (hleads : LeadsTo place (t.locate p)) (h : t.read p = .ok content) :
    t.fileAt place = some content := by
  simp only [Tree.read, withPath, Tree.entry] at h
  split at h
  · cases h
  · obtain hfree | ⟨bs, hfound⟩ := hleads
    · rw [hfree] at h
      cases h
    · rw [hfound] at h
      cases h
      exact fileAt_of_file (locate_sound hfound).1

/-- A file is kept as it is, and the paths that lead to it still do. -/
structure Tree.Keeps (t t' : Tree) (place : List String) : Prop where
  same : t'.fileAt place = t.fileAt place
  leads : ∀ p, LeadsTo place (t.locate p) → LeadsTo place (t'.locate p)

namespace Tree.Keeps

theorem refl (t : Tree) (place : List String) : t.Keeps t place := ⟨rfl, fun _ h => h⟩

theorem trans {t'' : Tree} (h : t.Keeps t' place) (h' : t'.Keeps t'' place) : t.Keeps t'' place :=
  ⟨h'.same.trans h.same, fun p hp => h'.leads p (h.leads p hp)⟩

theorem read (h : t.Keeps t' place) (hleads : LeadsTo place (t.locate p))
    (hread : t.read p = .ok content) : t'.read p = .ok content := by
  have hcontent := h.same.trans (fileAt_of_read hleads hread)
  simp only [Tree.read, withPath, Tree.entry] at hread ⊢
  split at hread
  · cases hread
  · next hnul =>
    rw [if_neg hnul]
    obtain hfree | ⟨bs, hfound⟩ := h.leads p hleads
    · rw [fileAt_of_none (locate_sound hfree).1] at hcontent
      cases hcontent
    · rw [fileAt_of_file (locate_sound hfound).1] at hcontent
      rw [hfound, Option.some.inj hcontent]

end Tree.Keeps

theorem put_fileAt_ne (hroom : t.HasRoom place)
    (hold : ∀ inner, childAt t.children place ≠ some (.dir inner)) (hne : names ≠ place) :
    (t.put place (.file content)).fileAt names = t.fileAt names := by
  obtain ⟨above, name, rfl, inner, hinner⟩ := hroom
  exact fileAt_of_faceAt (faceAt_putAt_ne hinner (by simp) hold hne)

/-- A directory is found below the working directory, or it is outside. -/
theorem locate_of_isDir (h : t.isDir p = .ok true) :
    t.locate p = .ok .outside ∨ ∃ names inner, t.locate p = .ok (.found names (.dir inner)) := by
  simp only [Tree.isDir, Tree.test, Tree.entry] at h
  cases hl : t.locate p with
  | error r =>
    simp only [hl, refused] at h
    split at h <;> cases h
  | ok place =>
    cases place with
    | outside => exact .inl rfl
    | free names =>
      simp only [hl, refused] at h
      cases h
    | found names e =>
      cases e with
      | dir inner => exact .inr ⟨names, inner, rfl⟩
      | file bs =>
        simp only [hl, Entry.isDir] at h
        cases h
      | link target =>
        simp only [hl, Entry.isDir] at h
        cases h

theorem Tree.AgreesApart.keeps (ha : t.AgreesApart t' place) (hold : t.IsFileOrFree place)
    (hne : names ≠ place) : t.Keeps t' names := by
  refine ⟨ha.fileAt hne, ?_⟩
  intro p hp
  have hstays : t'.IsFileOrFree names := ha.isFileOrFree hne (room_of_locate hp).1
  rw [locate_agreesApart ha hold hstays hp]
  exact hstays.leadsTo

theorem read_noNul (h : t.read p = .ok content) :
    (p.parts.any fun part => part.toList.contains '\x00') = false := by
  simp only [Tree.read, withPath] at h
  split at h
  · cases h
  · next hnul => exact Bool.eq_false_iff.mpr hnul

theorem locate_of_read (h : t.read p = .ok content) :
    ∃ place, t.locate p = .ok (.found place (.file content)) := by
  simp only [Tree.read, withPath, Tree.entry] at h
  split at h
  · cases h
  · split at h
    · next bs hentry =>
      cases h
      split at hentry
      · next names e hl =>
        cases hentry
        exact ⟨names, hl⟩
      all_goals cases hentry
    all_goals cases h

theorem makeDir_read {q : Path} (h : t.makeDir p = .ok t') (hread : t.read q = .ok content) :
    t'.read q = .ok content := by
  obtain ⟨made, hnone, _, ha⟩ := makeDir_apart h
  obtain ⟨place, hplace⟩ := locate_of_read hread
  have hne : place ≠ made := by
    rintro rfl
    cases (locate_sound hplace).1.symm.trans hnone
  exact (ha.keeps (.inl hnone) hne).read (.inr ⟨content, hplace⟩) hread

theorem Paved.read {q : Path} (h : Tree.Paved p t t') (hread : t.read q = .ok content) :
    t'.read q = .ok content := by
  induction h with
  | refl => exact hread
  | tail _ hs ih =>
    obtain ⟨n, hn⟩ := hs
    exact makeDir_read hn ih

/-- Content has been written to a path that leads to a place. -/
structure Tree.WrittenAt (t t' : Tree) (p : Path) (content : Bytes) (place : List String) : Prop where
  old : LeadsTo place (t.locate p)
  apart : t.AgreesApart t' place
  leads : t'.locate p = .ok (.found place (.file content))
  read : t'.read p = .ok content

namespace Tree.WrittenAt

theorem others (h : t.WrittenAt t' p content place) (hne : names ≠ place) :
    t'.fileAt names = t.fileAt names :=
  h.apart.fileAt hne

end Tree.WrittenAt

theorem put_writtenAt (hnul : (p.parts.any fun part => part.toList.contains '\x00') = false)
    (h : LeadsTo place (t.locate p)) (content : Bytes) :
    t.WrittenAt (t.put place (.file content)) p content place := by
  obtain ⟨hold, hroom⟩ := room_of_locate h
  have hfile := childAt_put hroom (.file content)
  have ha : t.AgreesApart (t.put place (.file content)) place :=
    put_agreesApart hroom hold (by simp)
  have hleads : (t.put place (.file content)).locate p = .ok (.found place (.file content)) := by
    rw [locate_agreesApart ha hold (.inr ⟨content, hfile⟩) h, Tree.endAt, hfile]
  exact ⟨h, ha, hleads, read_of_found hnul hleads⟩

theorem write_eq_ok (h : t.write p content = .ok t') :
    ∃ place, t.WrittenAt t' p content place := by
  simp only [Tree.write, withPath] at h
  split at h
  · cases h
  · next hnul =>
    have hnul := Bool.eq_false_iff.mpr hnul
    split at h
    · next names old hl =>
      cases h
      exact ⟨names, put_writtenAt hnul (.inr ⟨old, hl⟩) content⟩
    · next names hl =>
      cases h
      exact ⟨names, put_writtenAt hnul (.inl hl) content⟩
    · cases h
    · cases h

theorem write_noNul (h : t.write p content = .ok t') :
    (p.parts.any fun part => part.toList.contains '\x00') = false := by
  simp only [Tree.write, withPath] at h
  split at h
  · cases h
  · next hnul => exact Bool.eq_false_iff.mpr hnul

theorem write_write (h : t.write p content = .ok t') (new : Bytes) : t'.write p new = t.write p new := by
  have hnul := write_noNul h
  obtain ⟨place, hwritten⟩ := write_eq_ok h
  cases (write_of_leadsTo hnul hwritten.old content).symm.trans h
  rw [write_of_leadsTo hnul (.inr ⟨content, hwritten.leads⟩), write_of_leadsTo hnul hwritten.old,
    put_put (room_of_locate hwritten.old).2]

theorem write_error {e : FileError} (h : t.write p content = .error e) (new : Bytes) :
    t.write p new = .error e := by
  simp only [Tree.write, withPath] at h ⊢
  split at h
  · next hnul =>
    rw [if_pos hnul]
    exact h
  · next hnul =>
    rw [if_neg hnul]
    split at h
    · cases h
    · cases h
    · exact h
    · exact h

end

end JudgedLint.Workspace
