import JudgedLint.Proofs.Except
import JudgedLint.Proofs.Json.Members
import JudgedLint.Proofs.Workspace.Files
import JudgedLint.Proofs.Workspace.Way
import JudgedLint.Workspace.Selection

/-! The names that a selection gives, opened from where they were selected. -/
namespace JudgedLint.Workspace

open Json (Distinct lookup_of_mem mem_of_lookup)
open Pattern (normalizePath)
open Text (Bytes)

variable {t : Tree} {start p q : Path} {dirs segments : List String} {raw name : String}

def Tree.pathOf (t : Tree) (start : Path) (name : String) : Path := t.join start (Path.ofText name)

/-- Both paths lead to one and the same file. -/
def Tree.SameFile (t : Tree) (p q : Path) : Prop :=
  ∃ place content, t.locate p = .ok (.found place (.file content)) ∧
    t.locate q = .ok (.found place (.file content))

/-- The names lead from the working directory down to the one a path stands for. -/
structure Tree.WorksIn (t : Tree) (start : Path) (dirs : List String) : Prop where
  root : (Path.ofText t.root).lead ≠ ""
  rootPlain : ".." ∉ (Path.ofText t.root).parts
  start : t.segments? start = some dirs
  there : t.HasDir dirs
  nameable : IsNameable dirs

theorem Tree.WorksIn.up (h : t.WorksIn start dirs) : ".." ∉ dirs :=
  fun hup => (h.nameable _ hup).1 rfl

/-! ## Segments -/

/-- A path with segments below the working directory stands for these behind the directory's own. -/
theorem absolute_eq (hroot : (Path.ofText t.root).lead ≠ "") (h : t.segments? p = some segments) :
    (if p.lead == "" && !(t.isAbsolute p) then Path.collapse true ((Path.ofText t.root).parts ++ p.parts)
      else Path.collapse true p.parts) =
      Path.collapse true ((Path.ofText t.root).parts ++ segments) := by
  by_cases hbelow : (p.lead == (Path.ofText t.root).lead &&
      (Path.ofText t.root).parts.isPrefixOf p.parts) = true
  · rw [segments?_of_root hbelow rfl] at h
    obtain ⟨hlead, hprefix⟩ := Bool.and_eq_true_iff.mp hbelow
    obtain ⟨rest, hrest⟩ := List.isPrefixOf_iff_prefix.mp hprefix
    rw [← hrest, List.drop_left] at h
    have hne : (p.lead == "") = false := by
      rw [beq_iff_eq.mp hlead]
      exact beq_eq_false_iff_ne.mpr hroot
    rw [hne, Bool.false_and, if_neg Bool.false_ne_true, ← hrest, Option.some.inj h]
  · rw [segments?_of_not_root hbelow rfl] at h
    split at h
    · next hrelative =>
      have hplain : t.isAbsolute p = false := by
        have hlead : ((Path.ofText t.root).lead == "") = false := beq_eq_false_iff_ne.mpr hroot
        simp [Tree.isAbsolute, beq_iff_eq.mp hrelative, hlead]
      rw [hrelative, hplain, Option.some.inj h]
      rfl
    · cases h

theorem relative_eq (hroot : (Path.ofText t.root).lead ≠ "") (hs : t.segments? start = some dirs)
    (hp : t.segments? p = some segments) :
    t.relative start p = normalizePath (Path.text ⟨"", Path.relativeParts
      (Path.collapse true ((Path.ofText t.root).parts ++ dirs))
      (Path.collapse true ((Path.ofText t.root).parts ++ segments))⟩) := by
  have htext (parts : List String) :
      (if parts.isEmpty then "." else Text.join "/" parts) = Path.text ⟨"", parts⟩ := by
    simp [Path.text]
  simp only [Tree.relative, absolute_eq hroot hs, absolute_eq hroot hp, htext]

theorem join_relative (hroot : (Path.ofText t.root).lead ≠ "") (dir : Path) (parts : List String) :
    t.join dir ⟨"", parts⟩ = ⟨dir.lead, dir.parts ++ parts⟩ := by
  have hlead : ((Path.ofText t.root).lead == "") = false := beq_eq_false_iff_ne.mpr hroot
  simp [Tree.join, Tree.isAbsolute, hlead, Path.join]

theorem pathOf_text (hroot : (Path.ofText t.root).lead ≠ "") {parts : List String}
    (h : ∀ part ∈ parts, Path.IsSegment part) (start : Path) :
    t.pathOf start (Path.text ⟨"", parts⟩) = ⟨start.lead, start.parts ++ parts⟩ := by
  rw [Tree.pathOf, Path.ofText_text h, join_relative hroot]

theorem segments?_pathOf (hw : t.WorksIn start dirs) (h : t.segments? (t.pathOf start raw) = some segments) :
    segments = dirs ++ (Path.ofText raw).parts ∨ segments ⊆ (Path.ofText raw).parts := by
  by_cases hlead : (Path.ofText raw).lead = ""
  · have hpath : t.pathOf start raw = ⟨start.lead, start.parts ++ (Path.ofText raw).parts⟩ := by
      rw [Tree.pathOf, ← join_relative hw.root, ← hlead]
    rw [hpath, segments?_append _ hw.root hw.start] at h
    exact .inl (Option.some.inj h).symm
  · have hpath : t.pathOf start raw = Path.ofText raw := by
      rw [Tree.pathOf, Tree.join, if_pos]
      simp [Tree.isAbsolute, hlead]
    rw [hpath] at h
    simp only [Tree.segments?, beq_eq_false_iff_ne.mpr hlead, Bool.false_eq_true, if_false] at h
    split at h
    · cases h
      exact .inr (List.drop_subset _ _)
    · cases h

theorem mem_relativeParts_pathOf (hw : t.WorksIn start dirs)
    (h : t.segments? (t.pathOf start raw) = some segments)
    (hname : name ∈ Path.relativeParts dirs (Path.collapse true segments)) :
    name = ".." ∨ name ∈ (Path.ofText raw).parts := by
  rcases segments?_pathOf hw h with rfl | hsub
  · exact Path.mem_relativeParts_collapse hw.up hname
  · exact (Path.mem_relativeParts hname).imp_right fun hin => hsub (Path.mem_of_mem_collapse hin)

/-! ## Opening a name -/

theorem locate_of_isFile (h : t.isFile p = .ok true) :
    ∃ place content, t.locate p = .ok (.found place (.file content)) := by
  simp only [Tree.isFile, Tree.test, Tree.entry] at h
  cases hl : t.locate p with
  | error r =>
    simp only [hl, refused] at h
    split at h <;> cases h
  | ok place =>
    cases place with
    | found names e =>
      simp only [hl, Except.ok.injEq] at h
      cases e with
      | file content => exact ⟨names, content, rfl⟩
      | link target => cases h
      | dir inner => cases h
    | free names =>
      simp only [hl, refused] at h
      cases h
    | outside =>
      simp only [hl] at h
      cases h

theorem isFile_of_locate {place : List String} {content : Bytes}
    (h : t.locate p = .ok (.found place (.file content))) : t.isFile p = .ok true := by
  simp only [Tree.isFile, Tree.test, Tree.entry, h]
  rfl

theorem follow_of_locate {place : Place} (h : t.locate p = .ok place) :
    ∃ segments, t.segments? p = some segments ∧ t.follow true 40 [] segments = .ok place := by
  simp only [Tree.locate] at h
  split at h
  · cases h
  · split at h
    · cases h
    · next segments hs => exact ⟨segments, hs, h⟩

theorem locate_of_follow {place : Place} (hshort : ¬isTooLong p = true) (hs : t.segments? p = some segments)
    (h : t.follow true 40 [] segments = .ok place) : t.locate p = .ok place := by
  rw [Tree.locate, if_neg hshort, hs]
  exact h

theorem entry_of_no_segments (hshort : ¬isTooLong p = true) (hs : t.segments? p = some []) :
    t.entry p = .ok (.dir t.children) := by
  have hlocate : t.locate p = .ok (.found [] (.dir t.children)) := by
    refine locate_of_follow hshort hs ?_
    simp only [Tree.follow, childAt]
  rw [Tree.entry, hlocate]

/-- The name under which a file that is named is shown. -/
def Tree.shownAs (t : Tree) (start : Path) (raw : String) : String :=
  t.relative start (t.pathOf start raw)

/-- A name that stays what it is when it is made relative: no backslash stands in it, no `..` behind a
link, and it does not become too long. -/
structure Tree.IsClear (t : Tree) (start : Path) (raw : String) : Prop where
  slash : '\\' ∉ raw.toList
  plain : ∀ segments, t.segments? (t.pathOf start raw) = some segments → t.StepsPlainly segments
  short : ¬isTooLong (t.pathOf start (t.shownAs start raw)) = true

theorem sameFile_shownAs (hw : t.WorksIn start dirs) (hraw : t.IsClear start raw)
    (hfile : t.isFile (t.pathOf start raw) = .ok true) :
    t.SameFile (t.pathOf start raw) (t.pathOf start (t.shownAs start raw)) := by
  obtain ⟨place, content, hlocate⟩ := locate_of_isFile hfile
  obtain ⟨segments, hsegments, hfollow⟩ := follow_of_locate hlocate
  obtain ⟨hfollow, hcollapse⟩ := follow_collapse (hraw.plain segments hsegments) hw.rootPlain hfollow
  have hparts : ∀ part ∈ Path.relativeParts dirs (Path.collapse true segments),
      Path.IsSegment part ∧ '\\' ∉ part.toList := by
    intro part hpart
    rcases mem_relativeParts_pathOf hw hsegments hpart with rfl | hin
    · exact ⟨⟨by decide, by decide, by decide⟩, by decide⟩
    · exact ⟨Path.isSegment_of_mem_ofText hin, fun hslash => hraw.slash (Path.mem_of_mem_ofText hin hslash)⟩
  have hname : t.shownAs start raw =
      Path.text ⟨"", Path.relativeParts dirs (Path.collapse true segments)⟩ := by
    rw [Tree.shownAs, relative_eq hw.root hw.start hsegments, hcollapse, Path.collapse_append _ hw.up,
      Path.collapse_of_notMem hw.rootPlain, Path.relativeParts_append,
      Path.normalizePath_text (fun part hpart => (hparts part hpart).1) fun part hpart => (hparts part hpart).2]
  have hopened : t.segments? (t.pathOf start (t.shownAs start raw)) =
      some (dirs ++ Path.relativeParts dirs (Path.collapse true segments)) := by
    rw [hname, pathOf_text hw.root fun part hpart => (hparts part hpart).1]
    exact segments?_append _ hw.root hw.start
  refine ⟨place, content, hlocate, locate_of_follow hraw.short hopened ?_⟩
  rw [follow_relativeParts hw.there hw.nameable, hfollow]

theorem relative_below (hw : t.WorksIn start dirs) {parts : List String}
    (h : ∀ part ∈ parts, Path.IsSegment part) (hslash : ∀ part ∈ parts, '\\' ∉ part.toList)
    (hup : ".." ∉ parts) :
    t.relative start ⟨start.lead, start.parts ++ parts⟩ = Path.text ⟨"", parts⟩ := by
  rw [relative_eq hw.root hw.start (segments?_append _ hw.root hw.start), Path.collapse_append _ hw.up,
    ← List.append_assoc, Path.collapse_append _ hup, Path.collapse_append _ hw.up,
    Path.relativeParts_below, Path.normalizePath_text h hslash]

/-! ## Entries of directories -/

/-- What the file system guarantees of the names in a directory. -/
structure IsFolder (inner : List (String × Entry)) : Prop where
  distinct : Distinct inner
  segment : ∀ name ∈ inner.map Prod.fst, Path.IsSegment name
  nameable : IsNameable (inner.map Prod.fst)

theorem isFolder_iff {inner : List (String × Entry)} :
    IsFolder inner ↔ Distinct inner ∧ (∀ name ∈ inner.map Prod.fst, Path.IsSegment name) ∧
      IsNameable (inner.map Prod.fst) :=
  ⟨fun h => ⟨h.distinct, h.segment, h.nameable⟩, fun h => ⟨h.1, h.2.1, h.2.2⟩⟩

instance (inner : List (String × Entry)) : Decidable (IsFolder inner) :=
  decidable_of_iff' _ isFolder_iff

def Tree.WellNamed (t : Tree) : Prop :=
  ∀ names inner, childAt t.children names = some (.dir inner) → IsFolder inner

theorem Tree.wellNamed_of_children {root : String} {children : List (String × Entry)} (h : IsFolder children)
    (hbelow : ∀ name inner, (name, .dir inner) ∈ children → (Tree.mk root inner).WellNamed) :
    (Tree.mk root children).WellNamed := by
  intro names inner hat
  cases names with
  | nil =>
    cases hat
    exact h
  | cons name rest =>
    obtain ⟨below, hlookup, hat⟩ := lookup_of_childAt_dir hat
    exact hbelow name below (mem_of_lookup hlookup) rest inner hat

theorem Tree.WellNamed.names (h : t.WellNamed) {names : List String} {e : Entry}
    (hat : childAt t.children names = some e) :
    (∀ name ∈ names, Path.IsSegment name) ∧ IsNameable names := by
  induction names using List.reverseRecOn generalizing e with
  | nil => exact ⟨by simp, by simp [IsNameable]⟩
  | append_singleton names name ih =>
    obtain ⟨inner, hinner, hname⟩ := childAt_concat hat
    have hmem : name ∈ inner.map Prod.fst := List.mem_map_of_mem (mem_of_lookup hname)
    have hfolder := h names inner hinner
    obtain ⟨hsegment, hnameable⟩ := ih hinner
    rw [IsNameable, List.forall_mem_append, List.forall_mem_append, List.forall_mem_singleton,
      List.forall_mem_singleton]
    exact ⟨⟨hsegment, hfolder.segment name hmem⟩, hnameable, hfolder.nameable name hmem⟩

/-- A path that is walked to from a directory stands for an entry below that is no directory. -/
def Tree.WalkedFrom (t : Tree) (here : Path) (names : List String) (w : Path) : Prop :=
  ∃ below e, w = ⟨here.lead, here.parts ++ below⟩ ∧ childAt t.children (names ++ below) = some e ∧
    ∀ inner, e ≠ .dir inner

theorem Tree.WalkedFrom.of_child {w : Path} {names : List String}
    (h : t.WalkedFrom (p.child name) (names ++ [name]) w) : t.WalkedFrom p names w := by
  obtain ⟨below, e, rfl, hat, hdir⟩ := h
  rw [List.append_assoc] at hat
  exact ⟨[name] ++ below, e, by simp [Path.child], hat, hdir⟩

theorem walked_of_mem (hn : t.WellNamed) (fuel : Nat) : ∀ {here w : Path} {names : List String}
    {children : List (String × Entry)}, childAt t.children names = some (.dir children) →
      (w ∈ t.walk here fuel children → t.WalkedFrom here names w) ∧
      ∀ dirs, w ∈ t.walkDirs here fuel children dirs → t.WalkedFrom here names w := by
  induction fuel with
  | zero =>
    intro here w names children _
    exact ⟨fun h => by simp [Tree.walk] at h, fun dirs h => by simp [Tree.walkDirs] at h⟩
  | succ fuel ih =>
    intro here w names children hat
    refine ⟨fun h => ?_, fun dirs h => ?_⟩
    · rw [Tree.walk, List.mem_append] at h
      rcases h with h | h
      · obtain ⟨name, hname, rfl⟩ := List.mem_map.mp h
        obtain ⟨⟨_, e⟩, hchild, rfl⟩ :=
          List.mem_map.mp (List.mem_mergeSort.mp (List.mem_filter.mp hname).1)
        obtain ⟨hmem, hfile⟩ := List.mem_filter.mp hchild
        refine ⟨[_], e, rfl, ?_, ?_⟩
        · rw [childAt_append _ hat]
          exact lookup_of_mem (hn _ _ hat).distinct hmem
        · rintro inner rfl
          cases hfile
      · exact (ih hat).2 _ h
    · cases dirs with
      | nil => simp [Tree.walkDirs] at h
      | cons name rest =>
        rw [Tree.walkDirs, List.mem_append] at h
        rcases h with h | h
        · split at h
          · next inner hinner =>
            have hbelow : childAt t.children (names ++ [name]) = some (.dir inner) := by
              rw [childAt_append _ hat]
              exact hinner
            exact ((ih hbelow).1 h).of_child
          · cases h
        · exact (ih hat).2 _ h

def Tree.walked (t : Tree) (start : Path) : List Path :=
  match t.entry start with
  | .ok (.dir children) => t.walk start (2 * weights children + 2) children
  | _ => []

theorem childAt_of_entry (hw : t.WorksIn start dirs) {e : Entry} (h : t.entry start = .ok e) :
    childAt t.children dirs = some e := by
  obtain ⟨inner, hinner⟩ := hw.there
  by_cases hlong : isTooLong start = true
  · simp only [Tree.entry, Tree.locate, if_pos hlong, refused] at h
    cases h
  · have hway : Way t 40 [] dirs 40 dirs := hw.there.way hw.nameable
    have hfollow : t.follow true 40 [] (dirs ++ []) = t.follow true 40 dirs [] := hway.follow (.inl rfl)
    rw [List.append_nil, Tree.follow.eq_1, hinner] at hfollow
    simp only [Tree.entry, locate_of_follow hlong hw.start hfollow] at h
    cases h
    exact hinner

theorem walkedFrom_of_mem_walked {w : Path} (hw : t.WorksIn start dirs) (hn : t.WellNamed)
    (h : w ∈ t.walked start) : t.WalkedFrom start dirs w := by
  rw [Tree.walked] at h
  split at h
  · next children he => exact (walked_of_mem hn _ (childAt_of_entry hw he)).1 h
  · cases h

/-- An entry that is walked to keeps what it is: no backslash stands in its name, it is no link that
leads nowhere, and its path is not too long. -/
structure Tree.IsClearEntry (t : Tree) (start w : Path) : Prop where
  slash : ∀ part ∈ w.parts.drop start.parts.length, '\\' ∉ part.toList
  link : ∀ target, t.standing w = some (.link target) → t.isFile w = .ok true
  short : ¬isTooLong w = true

theorem locateLink_walked (hw : t.WorksIn start dirs) (hn : t.WellNamed) {below : List String} {e : Entry}
    (hat : childAt t.children (dirs ++ below) = some e) (hdir : ∀ inner, e ≠ .dir inner)
    (hshort : ¬isTooLong ⟨start.lead, start.parts ++ below⟩ = true) :
    t.locateLink ⟨start.lead, start.parts ++ below⟩ = .ok (.found (dirs ++ below) e) := by
  rw [Tree.locateLink, if_neg hshort, segments?_append _ hw.root hw.start]
  rcases List.eq_nil_or_concat' below with rfl | ⟨above, name, rfl⟩
  · rw [List.append_nil] at hat
    obtain ⟨inner, hinner⟩ := hw.there
    exact absurd (Option.some.inj (hat.symm.trans hinner)) (hdir inner)
  · have hnameable := (hn.names hat).2
    rw [← List.append_assoc] at hat ⊢
    obtain ⟨inner, hinner, _⟩ := childAt_concat hat
    obtain ⟨hup, hlong⟩ := hnameable name (by simp)
    have hway : Way t 40 [] (dirs ++ above) 40 (dirs ++ above) :=
      Tree.HasDir.way ⟨inner, hinner⟩ (hn.names hinner).2
    exact hway.follow_name hup hlong hat hdir

theorem isFile_walked {w : Path} (hw : t.WorksIn start dirs) (hn : t.WellNamed)
    (h : t.WalkedFrom start dirs w) (hclear : t.IsClearEntry start w) : t.isFile w = .ok true := by
  obtain ⟨below, e, rfl, hat, hdir⟩ := h
  have hlocate := locateLink_walked hw hn hat hdir hclear.short
  cases e with
  | dir inner => exact absurd rfl (hdir inner)
  | file content =>
    refine isFile_of_locate ((locate_of_not_link ?_).trans hlocate)
    rw [hlocate]
    simp
  | link target => exact hclear.link target (by rw [Tree.standing, hlocate])

theorem pathOf_relative_walked {w : Path} (hw : t.WorksIn start dirs) (hn : t.WellNamed)
    (h : t.WalkedFrom start dirs w) (hclear : t.IsClearEntry start w) :
    t.pathOf start (t.relative start w) = w := by
  obtain ⟨below, e, rfl, hat, hdir⟩ := h
  obtain ⟨hsegment, hnameable⟩ := hn.names hat
  have hbelow : ∀ name ∈ below, Path.IsSegment name :=
    fun name hname => hsegment name (List.mem_append_right _ hname)
  have hup : ".." ∉ below := fun hup => (hnameable _ (List.mem_append_right _ hup)).1 rfl
  have hslash := hclear.slash
  rw [List.drop_left] at hslash
  rw [relative_below hw hbelow hslash hup, pathOf_text hw.root hbelow]

theorem sameFile_walked {w : Path} (hw : t.WorksIn start dirs) (hn : t.WellNamed)
    (h : t.WalkedFrom start dirs w) (hclear : t.IsClearEntry start w) :
    t.SameFile w (t.pathOf start (t.relative start w)) := by
  rw [pathOf_relative_walked hw hn h hclear]
  obtain ⟨place, content, hlocate⟩ := locate_of_isFile (isFile_walked hw hn h hclear)
  exact ⟨place, content, hlocate, hlocate⟩

/-! ## Selections -/

def Tree.namesFile (t : Tree) (start : Path) (raw : String) : Bool :=
  holds (fun raw => t.isFile (t.pathOf start raw)) raw

theorem namesFile_eq_true : t.namesFile start raw = true ↔ t.isFile (t.pathOf start raw) = .ok true := by
  rw [Tree.namesFile, holds]
  cases t.isFile (t.pathOf start raw) with
  | error e => simp [Except.toOption]
  | ok b => simp [Except.toOption]

theorem selectNamed_eq_ok {names shown gone : List String}
    (h : t.selectNamed start names = .ok (shown, gone)) :
    shown = (names.filter (t.namesFile start)).map (t.shownAs start) := by
  induction names generalizing shown gone with
  | nil =>
    cases h
    rfl
  | cons raw names ih =>
    rw [Tree.selectNamed] at h
    obtain ⟨isThere, hthere, h⟩ := bind_eq_ok.mp h
    obtain ⟨⟨kept, others⟩, hrest, h⟩ := bind_eq_ok.mp h
    have hnames : t.namesFile start raw = isThere := holds_of_ok hthere
    obtain rfl := ih hrest
    rw [List.filter_cons, hnames]
    cases isThere with
    | true =>
      cases h
      rfl
    | false =>
      cases h
      rfl

theorem selectLines_eq_ok {lines shown : List String} (h : t.selectLines start lines = .ok shown) :
    shown = ((lines.map Text.trim).filter fun line => !line.isEmpty && t.namesFile start line).map
      (t.shownAs start) := by
  induction lines generalizing shown with
  | nil =>
    cases h
    rfl
  | cons raw lines ih =>
    rw [Tree.selectLines] at h
    rw [List.map_cons, List.filter_cons]
    split at h
    · next hempty =>
      rw [hempty]
      exact ih h
    · next hfull =>
      obtain ⟨isThere, hthere, h⟩ := bind_eq_ok.mp h
      obtain ⟨kept, hrest, h⟩ := bind_eq_ok.mp h
      have hnames : t.namesFile start (Text.trim raw) = isThere := holds_of_ok hthere
      obtain rfl := ih hrest
      rw [Bool.eq_false_iff.mpr hfull, hnames]
      cases isThere with
      | true =>
        cases h
        rfl
      | false =>
        cases h
        rfl

/-- Of the files that are walked to, those are selected whose relative names match. -/
theorem selectMatching_eq {globs : List String} {patterns : List Pattern.Regex} (hne : globs.isEmpty = false)
    (hpatterns : globs.mapM Pattern.compileGlob = .ok patterns) :
    t.selectMatching start globs = .ok (((t.walked start).map (t.relative start)).filter fun path =>
      patterns.any fun r => r.accepts path.toList) := by
  rw [Tree.selectMatching, hne, if_neg Bool.false_ne_true, hpatterns, Tree.walked]
  cases t.entry start with
  | error e => rfl
  | ok e =>
    cases e with
    | dir children => rfl
    | file content => rfl
    | link target => rfl

theorem selectMatching_eq_ok {globs shown : List String} (h : t.selectMatching start globs = .ok shown) :
    ∃ walked : List Path, walked.Sublist (t.walked start) ∧ shown = walked.map (t.relative start) := by
  cases hne : globs.isEmpty with
  | true =>
    rw [Tree.selectMatching, hne] at h
    exact ⟨[], List.nil_sublist _, (pure_eq_ok.mp h).symm⟩
  | false =>
    cases hpatterns : globs.mapM Pattern.compileGlob with
    | error e =>
      rw [Tree.selectMatching, hne, hpatterns] at h
      cases h
    | ok patterns =>
      rw [selectMatching_eq hne hpatterns, List.filter_map] at h
      exact ⟨_, List.filter_sublist, (Except.ok.inj h).symm⟩

/-- Whether the trimmed line is the name of a file. -/
def Tree.listsFile (t : Tree) (start : Path) (line : String) : Bool :=
  !(Text.trim line).isEmpty && t.namesFile start (Text.trim line)

/-- Every name that a selection gives leads to the file for which it was selected: to the one that was
named, listed or walked to. Trimming must leave a listed line as it is, names must keep what they are
when they are made relative, and links that are walked to must lead to files. -/
theorem selected_sameFile (hw : t.WorksIn start dirs) (hn : t.WellNamed) :
    (∀ names shown gone, t.selectNamed start names = .ok (shown, gone) →
      List.Forall₂
        (fun raw name => t.IsClear start raw → t.SameFile (t.pathOf start raw) (t.pathOf start name))
        (names.filter (t.namesFile start)) shown) ∧
    (∀ output errors status shown, t.selectChanged start (.finished output errors status) = .ok shown →
      List.Forall₂
        (fun line name => Text.trim line = line → t.IsClear start line →
          t.SameFile (t.pathOf start line) (t.pathOf start name))
        ((Text.lines (Text.universalNewlines output)).filter (t.listsFile start)) shown) ∧
    ∀ globs shown, t.selectMatching start globs = .ok shown →
      ∃ walked : List Path, walked.Sublist (t.walked start) ∧
        List.Forall₂ (fun w name => t.IsClearEntry start w → t.SameFile w (t.pathOf start name))
          walked shown := by
  refine ⟨?_, ?_, ?_⟩
  · intro names shown gone h
    rw [selectNamed_eq_ok h, List.forall₂_map_right_iff, List.forall₂_same]
    intro raw hraw hclear
    exact sameFile_shownAs hw hclear (namesFile_eq_true.mp (List.mem_filter.mp hraw).2)
  · intro output errors status shown h
    rw [Tree.selectChanged] at h
    split at h
    · cases h
    · rw [selectLines_eq_ok (mapError_eq_ok.mp h), List.filter_map, List.map_map, List.forall₂_map_right_iff]
      refine List.forall₂_same.mpr ?_
      intro line hline htrim hclear
      have hlists : t.listsFile start line = true := (List.mem_filter.mp hline).2
      rw [Tree.listsFile, htrim, Bool.and_eq_true] at hlists
      rw [Function.comp_apply, htrim]
      exact sameFile_shownAs hw hclear (namesFile_eq_true.mp hlists.2)
  · intro globs shown h
    obtain ⟨walked, hsub, rfl⟩ := selectMatching_eq_ok h
    refine ⟨walked, hsub, ?_⟩
    rw [List.forall₂_map_right_iff, List.forall₂_same]
    intro w hmem hclear
    exact sameFile_walked hw hn (walkedFrom_of_mem_walked hw hn (hsub.subset hmem)) hclear

namespace Sample

def linkedTree : Tree :=
  ⟨"/w", [("a.py", .file []), ("sub", .dir [("b.py", .link "../a.py")])]⟩

def root : Path := ⟨"/", ["w"]⟩

theorem linkedTree_worksIn : linkedTree.WorksIn root [] where
  root := by decide
  rootPlain := by decide
  start := by decide
  there := linkedTree.hasDir_nil
  nameable := by simp [IsNameable]

theorem linkedTree_wellNamed : linkedTree.WellNamed := by
  refine Tree.wellNamed_of_children (by decide) ?_
  intro name inner h
  obtain ⟨_, rfl⟩ : name = "sub" ∧ inner = [("b.py", .link "../a.py")] := by simpa using h
  refine Tree.wellNamed_of_children (by decide) ?_
  simp

theorem linkedTree_way : Way linkedTree 40 [] ["sub", ".."] 40 [] :=
  .down (by decide) (by decide) rfl (.up (by simp) .here)

theorem linkedTree_locate :
    linkedTree.locate ⟨"/", ["w", "sub", "..", "a.py"]⟩ = .ok (.found ["a.py"] (.file [])) := by
  have hsegments : linkedTree.segments? ⟨"/", ["w", "sub", "..", "a.py"]⟩ = some (["sub", ".."] ++ ["a.py"]) := by
    decide
  refine locate_of_follow (by decide) hsegments ?_
  rw [linkedTree_way.follow (.inl rfl), follow_endAt (.inr ⟨[], rfl⟩) (by decide) (by decide) rfl]
  rfl

theorem linkedTree_not_isLink : ¬linkedTree.IsLink ["sub"] := by
  rintro ⟨place, target, h⟩
  rw [Tree.follow, if_neg (by decide)] at h
  · have hsub : childAt linkedTree.children ([] ++ ["sub"]) = some (.dir [("b.py", .link "../a.py")]) := rfl
    simp only [hsub] at h
    rw [Tree.follow, hsub] at h
    cases h
  · decide

theorem linkedTree_isClear : linkedTree.IsClear root "sub/../a.py" where
  slash := by decide
  plain := by
    intro segments h
    have hsegments : linkedTree.segments? (linkedTree.pathOf root "sub/../a.py") = some ["sub", "..", "a.py"] := by
      decide
    obtain rfl := Option.some.inj (hsegments.symm.trans h)
    intro front rest heq
    rcases front with _ | ⟨first, _ | ⟨second, front⟩⟩
    · simp at heq
    · obtain rfl : "sub" = first := (List.cons.inj heq).1
      have hsub : Path.collapse true ["sub"] = ["sub"] := by decide
      rw [hsub]
      exact linkedTree_not_isLink
    · rcases front with _ | ⟨third, front⟩
      · simp at heq
      · simp at heq
  short := by decide

/-- A name that goes through a directory and up again is shown without the detour. -/
theorem selected_sameFile_linkedTree :
    linkedTree.selectNamed root ["sub/../a.py"] = .ok (["a.py"], []) ∧
      linkedTree.SameFile (linkedTree.pathOf root "sub/../a.py") (linkedTree.pathOf root "a.py") := by
  have hpath : linkedTree.pathOf root "sub/../a.py" = ⟨"/", ["w", "sub", "..", "a.py"]⟩ := by decide
  have hshown : linkedTree.shownAs root "sub/../a.py" = "a.py" := by decide
  have hfile : linkedTree.isFile (linkedTree.pathOf root "sub/../a.py") = .ok true := by
    rw [hpath]
    exact isFile_of_locate linkedTree_locate
  have hselect : linkedTree.selectNamed root ["sub/../a.py"] = .ok (["a.py"], []) := by
    rw [Tree.pathOf] at hfile
    rw [Tree.shownAs, Tree.pathOf] at hshown
    rw [Tree.selectNamed, hfile, hshown]
    rfl
  have hselected := (selected_sameFile linkedTree_worksIn linkedTree_wellNamed).1 _ _ _ hselect
  rw [List.filter_cons_of_pos (namesFile_eq_true.mpr hfile), List.filter_nil] at hselected
  cases hselected with
  | cons hfirst _ => exact ⟨hselect, hfirst linkedTree_isClear⟩

def danglingTree : Tree := ⟨"/w", [("a.py", .link "gone")]⟩

def slashedTree : Tree := ⟨"/w", [("a\\b.py", .file [])]⟩

theorem isFile_of_free {t : Tree} {p : Path} {names : List String} (h : t.locate p = .ok (.free names)) :
    t.isFile p = .ok false := by
  simp only [Tree.isFile, Tree.test, Tree.entry, h, refused]
  rfl

theorem danglingTree_locate : danglingTree.locate ⟨"/", ["w", "a.py"]⟩ = .ok (.free ["gone"]) := by
  have hsegments : danglingTree.segments? ⟨"/", ["w", "a.py"]⟩ = some ["a.py"] := by decide
  refine locate_of_follow (by decide) hsegments ?_
  have hlink : childAt danglingTree.children ([] ++ ["a.py"]) = some (.link "gone") := rfl
  have hgone : danglingTree.segments? (Path.ofText "gone") = some ["gone"] := by decide
  have hrelative : danglingTree.isAbsolute (Path.ofText "gone") = false := by decide
  rw [Tree.follow, if_neg (by decide)]
  · simp only [hlink, hgone, hrelative, List.isEmpty_nil, Bool.not_true, Bool.and_false, Bool.false_eq_true,
      if_false, List.append_nil]
    exact follow_endAt (.inl rfl) (by decide) (by decide) rfl
  · decide

theorem slashedTree_locate :
    slashedTree.locate ⟨"/", ["w", "a\\b.py"]⟩ = .ok (slashedTree.endAt ["a\\b.py"]) :=
  locate_name (by decide) (by decide) (by decide) (by decide) (.inr ⟨[], rfl⟩)

theorem slashedTree_entry : slashedTree.entry ⟨"/", ["w", "a", "b.py"]⟩ = refused ⟨"/", ["w", "a", "b.py"]⟩ .noEntry := by
  have hsegments : slashedTree.segments? ⟨"/", ["w", "a", "b.py"]⟩ = some ["a", "b.py"] := by decide
  have hnone : childAt slashedTree.children ([] ++ ["a"]) = none := rfl
  have hfollow : slashedTree.follow true 40 [] ["a", "b.py"] = .error .noEntry := by
    rw [Tree.follow, if_neg (by decide), hnone]
    · rfl
    · decide
  rw [Tree.entry, Tree.locate, if_neg (by decide), hsegments]
  simp only [hfollow]

theorem danglingTree_walked : danglingTree.walked root = [⟨"/", ["w", "a.py"]⟩] := by
  have hentry : danglingTree.entry root = .ok (.dir [("a.py", .link "gone")]) :=
    entry_of_no_segments (by decide) (by decide)
  have hdir : danglingTree.leadsToDir (root.child "a.py") = false := by
    have hpath : root.child "a.py" = ⟨"/", ["w", "a.py"]⟩ := rfl
    simp only [hpath, Tree.leadsToDir, Tree.isDir, Tree.test, Tree.entry, danglingTree_locate, refused]
    rfl
  have hhidden : isHidden "a.py" = false := by decide
  rw [Tree.walked, hentry]
  simp [Tree.walk, Tree.walkDirs, weights, Entry.weight, hdir, sortNames, hhidden]
  rfl

/-- A link that leads nowhere is selected, and a backslash in a name becomes a slash. -/
theorem selected_notSameFile :
    danglingTree.selectMatching root ["*.py"] = .ok ["a.py"] ∧
      danglingTree.isFile (danglingTree.pathOf root "a.py") = .ok false ∧
    slashedTree.selectNamed root ["a\\b.py"] = .ok (["a/b.py"], []) ∧
      slashedTree.isFile (slashedTree.pathOf root "a/b.py") = .ok false := by
  refine ⟨?_, ?_, ?_, ?_⟩
  · obtain ⟨r, hr, haccepts⟩ : ∃ r, ["*.py"].mapM Pattern.compileGlob = .ok [r] ∧
        r.accepts "a.py".toList = true :=
      ⟨_, rfl, by decide⟩
    have hshown : danglingTree.relative root ⟨"/", ["w", "a.py"]⟩ = "a.py" := by decide
    rw [selectMatching_eq rfl hr, danglingTree_walked, List.map_singleton, hshown,
      List.filter_cons_of_pos (by rw [List.any_cons, haccepts, Bool.true_or]), List.filter_nil]
  · exact isFile_of_free danglingTree_locate
  · have hfile : slashedTree.isFile (slashedTree.pathOf root "a\\b.py") = .ok true := isFile_of_locate slashedTree_locate
    have hshown : slashedTree.shownAs root "a\\b.py" = "a/b.py" := by decide
    rw [Tree.pathOf] at hfile
    rw [Tree.shownAs, Tree.pathOf] at hshown
    rw [Tree.selectNamed, hfile, hshown]
    rfl
  · have hpath : slashedTree.pathOf root "a/b.py" = ⟨"/", ["w", "a", "b.py"]⟩ := by decide
    rw [hpath, Tree.isFile, Tree.test, slashedTree_entry]
    rfl

end Sample

end JudgedLint.Workspace
