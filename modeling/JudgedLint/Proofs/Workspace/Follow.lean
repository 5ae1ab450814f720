import JudgedLint.Proofs.Workspace.Tree

/-! Where paths lead. Following a path looks at the entries on the way only for whether they are
directories, links or files, so a file that is put at the end of a way leaves the way as it is. -/
namespace JudgedLint.Workspace

open Text (Bytes)

variable {t : Tree}

def Tree.HasDir (t : Tree) (names : List String) : Prop :=
  ∃ inner, childAt t.children names = some (.dir inner)

theorem Tree.hasDir_nil (t : Tree) : t.HasDir [] := ⟨t.children, rfl⟩

theorem childAt_dir_of_append {children inner : List (String × Entry)} {names rest : List String}
    (h : childAt children (names ++ rest) = some (.dir inner)) :
    ∃ below, childAt children names = some (.dir below) := by
  induction names generalizing children with
  | nil => exact ⟨children, rfl⟩
  | cons name names ih =>
    obtain ⟨below, hl, hbelow⟩ := lookup_of_childAt_dir h
    rw [childAt_cons _ hl]
    exact ih hbelow

theorem Tree.HasDir.dropLast {names : List String} (h : t.HasDir names) : t.HasDir names.dropLast := by
  rcases List.eq_nil_or_concat names with rfl | ⟨above, name, rfl⟩
  · exact h
  · rw [List.concat_eq_append] at h ⊢
    rw [List.dropLast_concat]
    obtain ⟨inner, hinner⟩ := h
    exact childAt_dir_of_append hinner

/-- The names stand in a directory that is there. -/
def Tree.HasRoom (t : Tree) (names : List String) : Prop :=
  ∃ above name, names = above ++ [name] ∧ t.HasDir above

/-- What a place says of the tree is so: an entry that is no directory, and a free name, stand in a
directory. -/
def Place.Sound (t : Tree) : Place → Prop
  | .found names e => childAt t.children names = some e ∧ ((∃ inner, e = .dir inner) ∨ t.HasRoom names)
  | .free names => childAt t.children names = none ∧ t.HasRoom names
  | .outside => True

theorem follow_sound {last : Bool} {links : Nat} {here segments : List String} {place : Place}
    (hd : t.HasDir here) (h : t.follow last links here segments = .ok place) : place.Sound t := by
  fun_induction Tree.follow t last links here segments with
  | case1 links here e he =>
    cases h
    obtain ⟨inner, hinner⟩ := hd
    exact ⟨he, .inl ⟨inner, Option.some.inj (he.symm.trans hinner)⟩⟩
  | case2 | case4 | case6 | case8 | case11 | case13 | case14 => cases h
  | case3 =>
    cases h
    exact trivial
  | case5 links here rest hne ih => exact ih hd.dropLast h
  | case7 links here name rest hup hshort hnone hend =>
    cases h
    exact ⟨hnone, here, name, rfl, hd⟩
  | case9 links here name rest hup hshort inner hdir ih => exact ih ⟨inner, hdir⟩ h
  | case10 links here name rest hup hshort bs hfile hend =>
    cases h
    exact ⟨hfile, .inr ⟨here, name, rfl, hd⟩⟩
  | case12 links here name rest hup hshort target hlink hend =>
    cases h
    exact ⟨hlink, .inr ⟨here, name, rfl, hd⟩⟩
  | case15 here name rest hup hshort target hlink hend links p segments hp ih =>
    refine ih ?_ h
    split
    · exact t.hasDir_nil
    · exact hd

/-- Where a path leads with its last link followed is where it leads without, unless it ends in a
link. -/
theorem follow_last {links : Nat} {here segments : List String}
    (hlink : ∀ names target, t.follow false links here segments ≠ .ok (.found names (.link target))) :
    t.follow true links here segments = t.follow false links here segments := by
  fun_induction Tree.follow t false links here segments with
  | case1 links here e he => simp only [Tree.follow, he]
  | case2 links here hnone => simp only [Tree.follow, hnone]
  | case3 links rest hall => simp only [Tree.follow, hall, if_true]
  | case4 links rest hall => simp only [Tree.follow, hall]; simp
  | case5 links here rest hne ih =>
    simp only [Tree.follow]
    exact ih hlink
  | case6 links here name rest hup hlong => simp only [Tree.follow, hlong, if_true]
  | case7 links here name rest hup hshort hnone hend =>
    simp only [Tree.follow, hshort, hnone, hend, if_true, if_false]
  | case8 links here name rest hup hshort hnone hmore =>
    simp only [Tree.follow, hshort, hnone, hmore, if_false]
    simp
  | case9 links here name rest hup hshort inner hdir ih =>
    simp only [Tree.follow, hshort, hdir, if_false]
    exact ih hlink
  | case10 links here name rest hup hshort bs hfile hend =>
    simp only [Tree.follow, hshort, hfile, hend, if_true, if_false]
  | case11 links here name rest hup hshort bs hfile hmore =>
    simp only [Tree.follow, hshort, hfile, hmore, if_false]
    simp
  | case12 links here name rest hup hshort target htarget hend => exact absurd rfl (hlink _ _)
  | case13 here name rest hup hshort target htarget hmore =>
    simp only [Tree.follow, hshort, htarget, if_false]
    simp
  | case14 here name rest hup hshort target htarget hmore links p hp =>
    simp only [Tree.follow, hshort, htarget, if_false]
    simp [p, hp]
  | case15 here name rest hup hshort target htarget hmore links p segments hp ih =>
    simp only [Tree.follow, hshort, htarget, if_false]
    simp only [Bool.not_true, Bool.and_false, Bool.false_eq_true, if_false, p, hp]
    exact ih hlink

def LeadsTo (place : List String) (r : Except Refusal Place) : Prop :=
  r = .ok (.free place) ∨ ∃ content, r = .ok (.found place (.file content))

theorem leadsTo_unique {place place' : List String} {r : Except Refusal Place} (h : LeadsTo place r)
    (h' : LeadsTo place' r) : place = place' := by
  obtain rfl | ⟨content, rfl⟩ := h
  · obtain h' | ⟨content', h'⟩ := h' <;> cases h'
    rfl
  · obtain h' | ⟨content', h'⟩ := h' <;> cases h'
    rfl

theorem not_link_of_leadsTo {place : List String} {r : Except Refusal Place} (h : LeadsTo place r)
    (names : List String) (target : String) : r ≠ .ok (.found names (.link target)) := by
  rintro rfl
  obtain h | ⟨content, h⟩ := h <;> cases h

def Tree.IsFileOrFree (t : Tree) (place : List String) : Prop :=
  childAt t.children place = none ∨ ∃ content, childAt t.children place = some (.file content)

/-- Apart from one place, the same stands everywhere, except for what directories hold. -/
structure Tree.AgreesApart (t t' : Tree) (place : List String) : Prop where
  root : t'.root = t.root
  face : ∀ names, names ≠ place → faceAt t'.children names = faceAt t.children names

def Tree.without (t : Tree) (names : List String) : Tree :=
  { t with children := removeAt names t.children }

section Apart

variable {t' : Tree} {place names : List String} {content : Bytes} {new : Entry}

theorem Tree.IsFileOrFree.not_dir (h : t.IsFileOrFree place) (inner : List (String × Entry)) :
    childAt t.children place ≠ some (.dir inner) := by
  intro hinner
  rcases h with hnone | ⟨bs, hfile⟩
  · cases hnone.symm.trans hinner
  · cases hfile.symm.trans hinner

theorem Tree.IsFileOrFree.not_link (h : t.IsFileOrFree place) (target : String) :
    childAt t.children place ≠ some (.link target) := by
  intro hlink
  rcases h with hnone | ⟨bs, hfile⟩
  · cases hnone.symm.trans hlink
  · cases hfile.symm.trans hlink

namespace Tree.AgreesApart

theorem segments? (h : t.AgreesApart t' place) (p : Path) : t'.segments? p = t.segments? p := by
  rw [Tree.segments?, Tree.segments?, h.root]

theorem isAbsolute (h : t.AgreesApart t' place) (p : Path) : t'.isAbsolute p = t.isAbsolute p := by
  rw [Tree.isAbsolute, Tree.isAbsolute, h.root]

theorem dir (h : t.AgreesApart t' place) (hold : t.IsFileOrFree place) {inner : List (String × Entry)}
    (hdir : childAt t.children names = some (.dir inner)) :
    ∃ inner', childAt t'.children names = some (.dir inner') := by
  have hface := h.face names fun heq => hold.not_dir inner (heq ▸ hdir)
  exact faceAt_eq_dir.mp (hface.trans (faceAt_eq_dir.mpr ⟨inner, hdir⟩))

theorem link (h : t.AgreesApart t' place) (hold : t.IsFileOrFree place) {target : String}
    (hlink : childAt t.children names = some (.link target)) :
    childAt t'.children names = some (.link target) := by
  have hface := h.face names fun heq => hold.not_link target (heq ▸ hlink)
  exact faceAt_eq_link.mp (hface.trans (faceAt_eq_link.mpr hlink))

theorem isFileOrFree (h : t.AgreesApart t' place) (hne : names ≠ place) (hold : t.IsFileOrFree names) :
    t'.IsFileOrFree names := by
  have hface := h.face names hne
  rcases hold with hnone | ⟨bs, hfile⟩
  · exact .inl (faceAt_eq_none.mp (hface.trans (faceAt_eq_none.mpr hnone)))
  · exact .inr ⟨bs, faceAt_eq_file.mp (hface.trans (faceAt_eq_file.mpr hfile))⟩

end Tree.AgreesApart

theorem childAt_put (hr : t.HasRoom place) (e : Entry) :
    childAt (t.put place e).children place = some e := by
  obtain ⟨above, name, rfl, inner, hinner⟩ := hr
  exact childAt_putAt name e hinner

theorem childAt_without (hr : t.HasRoom place) : childAt (t.without place).children place = none := by
  obtain ⟨above, name, rfl, inner, hinner⟩ := hr
  exact childAt_removeAt name hinner

theorem put_put (hr : t.HasRoom place) (e e' : Entry) :
    (t.put place e).put place e' = t.put place e' := by
  obtain ⟨above, name, rfl, inner, hinner⟩ := hr
  exact congrArg (Tree.mk t.root) (putAt_putAt name e e' hinner)

theorem without_put (hr : t.HasRoom place) (hfree : childAt t.children place = none) (e : Entry) :
    (t.put place e).without place = t := by
  obtain ⟨above, name, rfl, inner, hinner⟩ := hr
  rw [childAt_append _ hinner] at hfree
  exact congrArg (Tree.mk t.root) (removeAt_putAt name e hinner hfree)

theorem put_agreesApart (hr : t.HasRoom place) (hold : t.IsFileOrFree place)
    (hnew : ∀ below, new = .dir below → below = []) : t.AgreesApart (t.put place new) place := by
  refine ⟨rfl, fun names hne => ?_⟩
  obtain ⟨above, name, rfl, inner, hinner⟩ := hr
  exact faceAt_putAt_ne hinner hnew hold.not_dir hne

theorem without_agreesApart (hr : t.HasRoom place) (hold : t.IsFileOrFree place) :
    t.AgreesApart (t.without place) place := by
  refine ⟨rfl, fun names hne => ?_⟩
  obtain ⟨above, name, rfl, inner, hinner⟩ := hr
  exact faceAt_removeAt_ne hinner hold.not_dir hne

/-- What is at the end of the way to a place: the file there, or the free name. -/
def Tree.endAt (t : Tree) (place : List String) : Place :=
  match childAt t.children place with
  | some e => .found place e
  | none => .free place

theorem Tree.IsFileOrFree.leadsTo (h : t.IsFileOrFree place) : LeadsTo place (.ok (t.endAt place)) := by
  rw [Tree.endAt]
  rcases h with hnone | ⟨bs, hfile⟩
  · rw [hnone]
    exact .inl rfl
  · rw [hfile]
    exact .inr ⟨bs, rfl⟩

theorem follow_endAt {last : Bool} {links : Nat} {here rest : List String} {name : String}
    (hend : t.IsFileOrFree (here ++ [name])) (hup : name ≠ "..")
    (hshort : ¬longestName < name.utf8ByteSize) (hrest : rest.isEmpty = true) :
    t.follow last links here (name :: rest) = .ok (t.endAt (here ++ [name])) := by
  rw [Tree.follow, if_neg hshort, Tree.endAt]
  · rcases hend with hnone | ⟨bs, hfile⟩
    · rw [hnone]
      simp [hrest]
    · rw [hfile]
      simp [hrest]
  · exact hup

/-- A path to a file or a free name leads to the same place when a file or a free name is all that has
changed, be it in this place or in another, and no directory or link has come into the place. -/
theorem follow_agreesApart {last : Bool} {links : Nat} {here segments goal : List String}
    (ha : t.AgreesApart t' place) (hold : t.IsFileOrFree place) (hnew : t'.IsFileOrFree goal)
    (hd : t.HasDir here) (h : LeadsTo goal (t.follow last links here segments)) :
    t'.follow last links here segments = .ok (t'.endAt goal) := by
  fun_induction Tree.follow t last links here segments with
  | case1 links here e he =>
    obtain ⟨inner, hinner⟩ := hd
    cases he.symm.trans hinner
    obtain h | ⟨bs, h⟩ := h <;> cases h
  | case2 | case3 | case4 | case6 | case8 | case11 | case12 | case13 | case14 =>
    obtain h | ⟨bs, h⟩ := h <;> cases h
  | case5 links here rest hne ih =>
    simp only [Tree.follow]
    exact ih hd.dropLast h
  | case7 links here name rest hup hshort hnone hrest =>
    obtain h | ⟨bs, h⟩ := h <;> cases h
    exact follow_endAt hnew hup hshort hrest
  | case9 links here name rest hup hshort inner hdir ih =>
    obtain ⟨inner', hdir'⟩ := ha.dir hold hdir
    simp only [Tree.follow, hshort, hdir', if_false]
    exact ih ⟨inner, hdir⟩ h
  | case10 links here name rest hup hshort bs hfile hrest =>
    obtain h | ⟨bs, h⟩ := h <;> cases h
    exact follow_endAt hnew hup hshort hrest
  | case15 here name rest hup hshort target htarget hmore links p segments hp ih =>
    have hlink := ha.link hold htarget
    have hp' : t'.segments? (Path.ofText target) = some segments := (ha.segments? _).trans hp
    have hstart : t.HasDir (if t.isAbsolute p then [] else here) := by
      split
      · exact t.hasDir_nil
      · exact hd
    simp only [Tree.follow, hshort, hlink, hmore, hp', ha.isAbsolute, if_false]
    exact ih hstart h

/-- Where a free name becomes an empty directory, a path that led there goes on from it. -/
theorem follow_put_empty (last : Bool) {links : Nat} {here segments : List String}
    (rest : List String) (hr : t.HasRoom place) (hfree : childAt t.children place = none)
    (h : t.follow false links here segments = .ok (.free place)) :
    ∃ links', (t.put place (.dir [])).follow last links here (segments ++ rest) =
      (t.put place (.dir [])).follow last links' place rest := by
  have hnew := childAt_put hr (.dir [])
  have hempty : ∀ below, Entry.dir [] = .dir below → below = [] := by
    intro below he
    cases he
    rfl
  have ha : t.AgreesApart (t.put place (.dir [])) place := put_agreesApart hr (.inl hfree) hempty
  fun_induction Tree.follow t false links here segments with
  | case1 | case2 | case3 | case4 | case6 | case8 | case10 | case11 | case12 | case13 | case14 => cases h
  | case5 links here more hne ih =>
    simp only [List.cons_append, Tree.follow]
    exact ih h
  | case7 links here name more hup hshort hnone hend =>
    cases h
    obtain rfl := List.isEmpty_iff.mp hend
    refine ⟨links, ?_⟩
    rw [List.cons_append, Tree.follow, if_neg hshort, hnew, List.nil_append]
    exact hup
  | case9 links here name more hup hshort inner hdir ih =>
    obtain ⟨inner', hdir'⟩ := ha.dir (.inl hfree) hdir
    simp only [List.cons_append, Tree.follow, hshort, hdir', if_false]
    exact ih h
  | case15 here name more hup hshort target htarget hend links p segments hp ih =>
    have hlink := ha.link (.inl hfree) htarget
    have hp' : (t.put place (.dir [])).segments? (Path.ofText target) = some segments := hp
    -- a link at the end would not have been followed, so the path goes on behind this one
    have hmore : (more ++ rest).isEmpty = false := by
      cases more with
      | nil => exact absurd rfl hend
      | cons next more => rfl
    simp only [List.cons_append, Tree.follow, hshort, hlink, hmore, Bool.false_and, hp', if_false,
      ← List.append_assoc]
    exact ih h

end Apart

theorem follow_of_empty {last : Bool} {links : Nat} {here segments names : List String} {e : Entry}
    (hd : childAt t.children here = some (.dir [])) (hs : segments ≠ []) (hup : ".." ∉ segments) :
    t.follow last links here segments ≠ .ok (.found names e) := by
  cases segments with
  | nil => exact absurd rfl hs
  | cons name rest =>
    have hname : name ≠ ".." := fun h => hup (by simp [h])
    have hnone : childAt t.children (here ++ [name]) = none := by
      rw [childAt_append _ hd, childAt_nil_cons]
    rw [Tree.follow]
    · split
      · simp
      · rw [hnone]
        cases rest.isEmpty <;> simp
    · exact hname

/-- Behind a place that is free, or that cannot be reached, nothing is reached. -/
theorem follow_append_error (last : Bool) {links : Nat} {here segments rest : List String}
    (hd : t.HasDir here) (hrest : rest ≠ [])
    (h : (∃ r, t.follow false links here segments = .error r) ∨
      ∃ names, t.follow false links here segments = .ok (.free names)) :
    ∃ r, t.follow last links here (segments ++ rest) = .error r := by
  have hmore (more : List String) : (more ++ rest).isEmpty = false := by
    rw [List.isEmpty_eq_false_iff]
    exact List.append_ne_nil_of_right_ne_nil more hrest
  -- With `rest` behind it no segment is the last, so what was free before is now missing.
  fun_induction Tree.follow t false links here segments with
  | case1 | case3 | case10 | case12 => obtain ⟨r, h⟩ | ⟨names, h⟩ := h <;> cases h
  | case2 links here hnone =>
    obtain ⟨inner, hinner⟩ := hd
    cases hnone.symm.trans hinner
  | case4 links more hall =>
    simp only [List.cons_append, Tree.follow, List.all_append, hall, Bool.false_and]
    exact ⟨_, rfl⟩
  | case5 links here more hne ih =>
    simp only [List.cons_append, Tree.follow]
    exact ih hd.dropLast h
  | case6 links here name more hup hlong =>
    simp only [List.cons_append, Tree.follow, hlong, if_true]
    exact ⟨_, rfl⟩
  | case7 links here name more hup hshort hnone hend =>
    simp only [List.cons_append, Tree.follow, hshort, hnone, hmore, if_false]
    exact ⟨_, rfl⟩
  | case8 links here name more hup hshort hnone hend =>
    simp only [List.cons_append, Tree.follow, hshort, hnone, hmore, if_false]
    exact ⟨_, rfl⟩
  | case9 links here name more hup hshort inner hdir ih =>
    simp only [List.cons_append, Tree.follow, hshort, hdir, if_false]
    exact ih ⟨inner, hdir⟩ h
  | case11 links here name more hup hshort bs hfile hend =>
    simp only [List.cons_append, Tree.follow, hshort, hfile, hmore, if_false]
    exact ⟨_, rfl⟩
  | case13 here name more hup hshort target htarget hend =>
    simp only [List.cons_append, Tree.follow, hshort, htarget, hmore, Bool.false_and, if_false]
    exact ⟨_, rfl⟩
  | case14 here name more hup hshort target htarget hend links p hp =>
    simp only [p] at hp
    simp only [List.cons_append, Tree.follow, hshort, htarget, hmore, Bool.false_and, if_false, hp]
    exact ⟨_, rfl⟩
  | case15 here name more hup hshort target htarget hend links p segments hp ih =>
    simp only [p] at hp
    simp only [List.cons_append, Tree.follow, hshort, htarget, hmore, Bool.false_and, if_false, hp,
      ← List.append_assoc]
    refine ih ?_ h
    split
    · exact t.hasDir_nil
    · exact hd

theorem follow_append_outside {links : Nat} {here segments : List String} {name : String}
    (hup : name ≠ "..") (h : t.follow true links here segments = .ok .outside) :
    ∃ r, t.follow false links here (segments ++ [name]) = .error r := by
  have hmore (rest : List String) : (rest ++ [name]).isEmpty = false := by
    rw [List.isEmpty_eq_false_iff]
    exact List.append_ne_nil_of_right_ne_nil rest (List.cons_ne_nil _ _)
  fun_induction Tree.follow t true links here segments with
  | case1 | case2 | case4 | case6 | case7 | case8 | case10 | case11 | case12 | case13 | case14 => cases h
  | case3 links rest hall =>
    have hname : (name == "..") = false := beq_eq_false_iff_ne.mpr hup
    simp [Tree.follow, List.all_append, hname]
  | case5 links here rest hne ih =>
    simp only [List.cons_append, Tree.follow]
    exact ih h
  | case9 links here next rest hne hshort inner hdir ih =>
    simp only [List.cons_append, Tree.follow, hshort, hdir, if_false]
    exact ih h
  | case15 here next rest hne hshort target htarget hend links p segments hp ih =>
    simp only [p] at hp
    simp only [List.cons_append, Tree.follow, hshort, htarget, hmore, Bool.false_and, if_false, hp,
      ← List.append_assoc]
    exact ih h

end JudgedLint.Workspace
