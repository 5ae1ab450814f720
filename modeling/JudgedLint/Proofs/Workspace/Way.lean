import JudgedLint.Proofs.Workspace.Follow
import JudgedLint.Proofs.Workspace.Path

/-! Ways through directories. A way is what following a path does before its last segment: it ends in
a directory, with some of the links still to be followed. Taking `..` away together with the segment
before it leaves where a way ends as it is, unless that segment is a link. -/
namespace JudgedLint.Workspace

open Text (Bytes)

variable {t : Tree} {links links' : Nat} {here there segments more : List String} {name : String}

/-- From a directory the segments lead to another one; so many links may be followed before and
behind. -/
inductive Way (t : Tree) : Nat → List String → List String → Nat → List String → Prop where
  | here {links : Nat} {here : List String} : Way t links here [] links here
  | up {links links' : Nat} {here there rest : List String} (hne : here ≠ [])
    (h : Way t links here.dropLast rest links' there) : Way t links here (".." :: rest) links' there
  | down {links links' : Nat} {here there rest : List String} {name : String}
    {inner : List (String × Entry)} (hup : name ≠ "..") (hshort : ¬longestName < name.utf8ByteSize)
    (hdir : childAt t.children (here ++ [name]) = some (.dir inner))
    (h : Way t links (here ++ [name]) rest links' there) : Way t links here (name :: rest) links' there
  | link {links links' : Nat} {here there rest segments : List String} {name target : String}
    (hup : name ≠ "..") (hshort : ¬longestName < name.utf8ByteSize)
    (hlink : childAt t.children (here ++ [name]) = some (.link target))
    (hmore : t.segments? (Path.ofText target) = some segments)
    (h : Way t links (if t.isAbsolute (Path.ofText target) then [] else here) (segments ++ rest) links'
      there) : Way t (links + 1) here (name :: rest) links' there

theorem append_isEmpty_of_ne (rest : List String) (hmore : more ≠ []) : (rest ++ more).isEmpty = false := by
  cases rest with
  | nil => simpa using hmore
  | cons name rest => rfl

namespace Way

theorem hasDir (h : Way t links here segments links' there) (hd : t.HasDir here) : t.HasDir there := by
  induction h with
  | here => exact hd
  | up _ _ ih => exact ih hd.dropLast
  | down _ _ hdir _ ih => exact ih ⟨_, hdir⟩
  | link _ _ _ _ _ ih =>
    refine ih ?_
    split
    · exact t.hasDir_nil
    · exact hd

theorem append {links'' : Nat} {there' : List String} (h : Way t links here segments links' there)
    (hmore : Way t links' there more links'' there') : Way t links here (segments ++ more) links'' there' := by
  induction h with
  | here => exact hmore
  | up hne _ ih => exact .up hne (ih hmore)
  | down hup hshort hdir _ ih => exact .down hup hshort hdir (ih hmore)
  | @link links links' here there rest segments name target hup hshort hlink hsegments _ ih =>
    refine .link hup hshort hlink hsegments ?_
    have hrest := ih hmore
    rwa [List.append_assoc] at hrest

theorem split (h : Way t links here (segments ++ more) links' there) :
    ∃ links₁ mid, Way t links here segments links₁ mid ∧ Way t links₁ mid more links' there := by
  generalize hall : segments ++ more = all at h
  induction h generalizing segments with
  | here =>
    obtain ⟨rfl, rfl⟩ := List.append_eq_nil_iff.mp hall
    exact ⟨_, _, .here, .here⟩
  | @up links links' here there rest hne hrest ih =>
    cases segments with
    | nil =>
      obtain rfl : more = _ := hall
      exact ⟨_, _, .here, .up hne hrest⟩
    | cons name segments =>
      rw [List.cons_append, List.cons.injEq] at hall
      obtain ⟨rfl, hall⟩ := hall
      obtain ⟨links₁, mid, h₁, h₂⟩ := ih hall
      exact ⟨links₁, mid, .up hne h₁, h₂⟩
  | @down links links' here there rest name inner hup hshort hdir hrest ih =>
    cases segments with
    | nil =>
      obtain rfl : more = _ := hall
      exact ⟨_, _, .here, .down hup hshort hdir hrest⟩
    | cons name' segments =>
      rw [List.cons_append, List.cons.injEq] at hall
      obtain ⟨rfl, hall⟩ := hall
      obtain ⟨links₁, mid, h₁, h₂⟩ := ih hall
      exact ⟨links₁, mid, .down hup hshort hdir h₁, h₂⟩
  | @link links links' here there rest segments' name target hup hshort hlink hsegments hrest ih =>
    cases segments with
    | nil =>
      obtain rfl : more = _ := hall
      exact ⟨_, _, .here, .link hup hshort hlink hsegments hrest⟩
    | cons name' segments =>
      obtain ⟨rfl, rfl⟩ := List.cons.inj hall
      obtain ⟨links₁, mid, h₁, h₂⟩ := ih (List.append_assoc segments' segments more)
      exact ⟨links₁, mid, .link hup hshort hlink hsegments h₁, h₂⟩

theorem follow {last : Bool} (h : Way t links here segments links' there)
    (hmore : last = true ∨ more ≠ []) :
    t.follow last links here (segments ++ more) = t.follow last links' there more := by
  induction h with
  | here => rfl
  | @up links links' here there rest hne _ ih =>
    rw [← ih, List.cons_append]
    cases here with
    | nil => exact absurd rfl hne
    | cons first here => simp only [Tree.follow]
  | down hup hshort hdir _ ih =>
    rw [← ih, List.cons_append, Tree.follow, if_neg hshort, hdir]
    exact hup
  | link hup hshort hlink hsegments _ ih =>
    rw [← ih, List.cons_append, Tree.follow, if_neg hshort, hlink]
    · have hon (rest : List String) : ((rest ++ more).isEmpty && !last) = false := by
        rcases hmore with rfl | hmore
        · exact Bool.and_false _
        · rw [append_isEmpty_of_ne rest hmore, Bool.false_and]
      simp only [hon, hsegments, Bool.false_eq_true, if_false, List.append_assoc]
    · exact hup

end Way

theorem way_of_follow {last : Bool} {names : List String} {e : Entry} (hmore : more ≠ [])
    (h : t.follow last links here (segments ++ more) = .ok (.found names e)) :
    ∃ links' there, Way t links here segments links' there := by
  generalize hall : segments ++ more = all at h
  -- The way ends where `segments` does; until then each step of the walk is a step of the way.
  fun_induction Tree.follow t last links here all generalizing segments with
  | case1 | case2 =>
    obtain ⟨rfl, rfl⟩ := List.append_eq_nil_iff.mp hall
    exact absurd rfl hmore
  | case3 | case4 | case6 | case7 | case8 | case11 | case13 | case14 => cases h
  | case5 links here rest hne ih =>
    cases segments with
    | nil => exact ⟨_, _, .here⟩
    | cons first segments =>
      rw [List.cons_append, List.cons.injEq] at hall
      obtain ⟨rfl, hall⟩ := hall
      obtain ⟨links', there, hway⟩ := ih hall h
      exact ⟨links', there, .up (fun h => hne h) hway⟩
  | case9 links here name rest hup hshort inner hdir ih =>
    cases segments with
    | nil => exact ⟨_, _, .here⟩
    | cons first segments =>
      rw [List.cons_append, List.cons.injEq] at hall
      obtain ⟨rfl, hall⟩ := hall
      obtain ⟨links', there, hway⟩ := ih hall h
      exact ⟨links', there, .down (fun h => hup h) hshort hdir hway⟩
  | case10 _ _ _ _ _ _ _ _ hend | case12 _ _ _ _ _ _ _ _ hend =>
    cases segments with
    | nil => exact ⟨_, _, .here⟩
    | cons first segments =>
      obtain ⟨rfl, rfl⟩ := List.cons.inj hall
      simp [append_isEmpty_of_ne segments hmore] at hend
  | case15 here name rest hup hshort target hlink hend links p segments' hp =>
    rename_i ih
    cases segments with
    | nil => exact ⟨_, _, .here⟩
    | cons first segments =>
      rw [List.cons_append, List.cons.injEq] at hall
      obtain ⟨rfl, rfl⟩ := hall
      obtain ⟨links', there, hway⟩ := ih (List.append_assoc ..) h
      exact ⟨links', there, .link (fun h => hup h) hshort hlink hp hway⟩

/-! ## Taking `..` away -/

def Tree.IsLink (t : Tree) (names : List String) : Prop :=
  ∃ place target, t.follow false 40 [] names = .ok (.found place (.link target))

/-- No `..` stands behind a link. -/
def Tree.StepsPlainly (t : Tree) (segments : List String) : Prop :=
  ∀ front rest, segments = front ++ ".." :: rest → ¬t.IsLink (Path.collapse true front)

theorem Tree.StepsPlainly.of_append (h : t.StepsPlainly (segments ++ more)) : t.StepsPlainly segments := by
  rintro front rest rfl
  exact h front (rest ++ more) (by simp)

namespace Way

theorem eq_of_up (h : Way t links here [".."] links' there) :
    links' = links ∧ here ≠ [] ∧ there = here.dropLast := by
  cases h with
  | up hne h =>
    cases h
    exact ⟨rfl, hne, rfl⟩
  | down hup => exact absurd rfl hup
  | link hup => exact absurd rfl hup

theorem eq_of_name (h : Way t links here [name] links' there) (hup : name ≠ "..") :
    links' = links ∧ there = here ++ [name] ∨
      ¬longestName < name.utf8ByteSize ∧ ∃ target, childAt t.children (here ++ [name]) = some (.link target) := by
  cases h with
  | up => exact absurd rfl hup
  | down _ _ _ h =>
    cases h
    exact .inl ⟨rfl, rfl⟩
  | link _ hshort htarget => exact .inr ⟨hshort, _, htarget⟩

theorem follow_name {e : Entry} (h : Way t 40 [] segments links here) (hup : name ≠ "..")
    (hshort : ¬longestName < name.utf8ByteSize) (hat : childAt t.children (here ++ [name]) = some e)
    (hdir : ∀ inner, e ≠ .dir inner) :
    t.follow false 40 [] (segments ++ [name]) = .ok (.found (here ++ [name]) e) := by
  rw [h.follow (.inr (List.cons_ne_nil _ _)), Tree.follow, if_neg hshort, hat]
  · cases e with
    | file content => rfl
    | link target => rfl
    | dir inner => exact absurd rfl (hdir inner)
  · exact hup

theorem isLink {target : String} (h : Way t 40 [] segments links here) (hup : name ≠ "..")
    (hshort : ¬longestName < name.utf8ByteSize)
    (hlink : childAt t.children (here ++ [name]) = some (.link target)) :
    t.IsLink (segments ++ [name]) :=
  ⟨here ++ [name], target, h.follow_name hup hshort hlink (by simp)⟩

theorem collapse {front : List String} (h : Way t 40 [] segments links there)
    (hplain : t.StepsPlainly segments) (hfront : ".." ∉ front) :
    Way t 40 [] (Path.collapse true segments) links there ∧
      Path.collapse true (front ++ segments) = front ++ Path.collapse true segments := by
  induction segments using List.reverseRecOn generalizing links there with
  | nil => exact ⟨h, by rw [List.append_nil, Path.collapse_of_notMem hfront]; exact (List.append_nil _).symm⟩
  | append_singleton segments name ih =>
    obtain ⟨links₁, mid, h₁, h₂⟩ := h.split
    obtain ⟨hway, hcollapse⟩ := ih h₁ hplain.of_append
    rw [← List.append_assoc]
    by_cases hup : name = ".."
    · subst hup
      obtain ⟨rfl, hne, rfl⟩ := h₂.eq_of_up
      rw [Path.collapse_concat_up, Path.collapse_concat_up, hcollapse]
      have hlink := hplain segments [] rfl
      have hmem := Path.up_notMem_collapse segments
      generalize Path.collapse true segments = done at hway hlink hmem
      rcases List.eq_nil_or_concat' done with rfl | ⟨above, last, rfl⟩
      · cases hway
        exact absurd rfl hne
      · obtain ⟨links₂, mid', h₃, h₄⟩ := hway.split
        have hlast : last ≠ ".." := fun hlast => hmem (by simp [hlast])
        rw [← List.append_assoc, List.dropLast_concat, List.dropLast_concat]
        rcases h₄.eq_of_name hlast with ⟨rfl, rfl⟩ | ⟨hshort, target, htarget⟩
        · rw [List.dropLast_concat]
          exact ⟨h₃, rfl⟩
        · exact absurd (h₃.isLink hlast hshort htarget) hlink
    · rw [Path.collapse_concat _ hup, Path.collapse_concat _ hup, hcollapse, List.append_assoc]
      exact ⟨hway.append h₂, rfl⟩

end Way

/-- A file is found without `..` as well, where no `..` stands behind a link. -/
theorem follow_collapse {place front : List String} {content : Bytes} (hplain : t.StepsPlainly segments)
    (hfront : ".." ∉ front) (h : t.follow true 40 [] segments = .ok (.found place (.file content))) :
    t.follow true 40 [] (Path.collapse true segments) = .ok (.found place (.file content)) ∧
      Path.collapse true (front ++ segments) = front ++ Path.collapse true segments := by
  rcases List.eq_nil_or_concat' segments with rfl | ⟨above, name, rfl⟩
  · rw [Tree.follow, childAt] at h
    cases h
  obtain ⟨links, there, hway⟩ := way_of_follow (List.cons_ne_nil _ _) h
  rw [hway.follow (.inl rfl)] at h
  have hup : name ≠ ".." := by
    rintro rfl
    cases there with
    | nil => simp [Tree.follow] at h
    | cons first there =>
      obtain ⟨inner, hinner⟩ := (hway.hasDir t.hasDir_nil).dropLast
      simp only [Tree.follow, hinner] at h
      cases h
  obtain ⟨hway', hcollapse⟩ := hway.collapse hplain.of_append hfront
  rw [← List.append_assoc, Path.collapse_concat _ hup, Path.collapse_concat _ hup, hcollapse,
    hway'.follow (.inl rfl), List.append_assoc]
  exact ⟨h, rfl⟩

/-! ## Directories without links on the way -/

def IsNameable (names : List String) : Prop :=
  ∀ name ∈ names, name ≠ ".." ∧ ¬longestName < name.utf8ByteSize

instance (names : List String) : Decidable (IsNameable names) :=
  inferInstanceAs (Decidable (∀ name ∈ names, name ≠ ".." ∧ ¬longestName < name.utf8ByteSize))

theorem Tree.HasDir.way {names : List String} (h : t.HasDir names) (hnames : IsNameable names) :
    Way t links [] names links names := by
  induction names using List.reverseRecOn with
  | nil => exact .here
  | append_singleton names name ih =>
    have hdir : t.HasDir names := by simpa using h.dropLast
    obtain ⟨hup, hshort⟩ := hnames name (by simp)
    obtain ⟨inner, hinner⟩ := h
    exact (ih hdir fun other hother => hnames other (List.mem_append_left _ hother)).append
      (.down hup hshort hinner .here)

theorem way_up (common rest : List String) :
    Way t links (common ++ rest) (List.replicate rest.length "..") links common := by
  induction rest using List.reverseRecOn with
  | nil => rw [List.append_nil]; exact .here
  | append_singleton rest name ih =>
    rw [List.length_append, List.length_singleton, List.replicate_succ, ← List.append_assoc]
    refine .up (by simp) ?_
    rwa [List.dropLast_concat]

/-- Seen from a directory, the relative segments lead where the target does. -/
theorem follow_relativeParts {dirs : List String} (hd : t.HasDir dirs) (hnames : IsNameable dirs)
    (target : List String) :
    t.follow true links [] (dirs ++ Path.relativeParts dirs target) = t.follow true links [] target := by
  obtain ⟨common, rest, down, rfl, rfl, h⟩ := Path.relativeParts_eq dirs target
  obtain ⟨inner, hinner⟩ := hd
  have hcommon : t.HasDir common := childAt_dir_of_append hinner
  have hnamesCommon : IsNameable common := fun name hname => hnames name (List.mem_append_left _ hname)
  rw [h, (Tree.HasDir.way ⟨inner, hinner⟩ hnames).follow (.inl rfl), (way_up common rest).follow (.inl rfl),
    (hcommon.way hnamesCommon).follow (.inl rfl)]

end JudgedLint.Workspace
