import JudgedLint.Proofs.Workspace.Selection
import Mathlib.Data.List.Sort

/-! What a walk meets, and in which order. The order is strict, so it leaves no room for the one in which
the entries of a directory are listed. -/
namespace JudgedLint.Workspace

open Json (Distinct lookup_of_mem mem_of_lookup)

variable {t : Tree} {here : Path} {children : List (String × Entry)} {names rest : List String}
  {name : String} {fuel : Nat}

def Path.below (p : Path) (names : List String) : Path := ⟨p.lead, p.parts ++ names⟩

theorem Path.below_cons (p : Path) (name : String) (rest : List String) :
    p.below (name :: rest) = (p.child name).below rest := by
  rw [below, below, child, List.append_assoc, List.singleton_append]

/-- Whether an entry is listed among the directories, as a link is if it leads to one. -/
def Tree.countsAsDir (t : Tree) (p : Path) : Entry → Bool
  | .dir _ => true
  | .link _ => t.leadsToDir p
  | .file _ => false

def isSearched (name : String) : Bool := !ignoredDirs.contains name && !isHidden name

/-- What a walk looks for: entries that are not hidden and count as no directory, in directories that are
searched and stand in such directories. A link is none of these, wherever it leads. -/
inductive Tree.Meets (t : Tree) : Path → List (String × Entry) → List String → Prop where
  | file {here : Path} {children : List (String × Entry)} {name : String} {e : Entry}
      (hat : children.lookup name = some e) (hfile : t.countsAsDir (here.child name) e = false)
      (hshown : isHidden name = false) : Meets t here children [name]
  | dir {here : Path} {children inner : List (String × Entry)} {name : String} {rest : List String}
      (hat : children.lookup name = some (.dir inner)) (hsearched : isSearched name = true)
      (h : Meets t (here.child name) inner rest) : Meets t here children (name :: rest)

theorem Tree.Meets.ne_nil (h : t.Meets here children names) : names ≠ [] := by
  cases h with
  | file => exact List.cons_ne_nil _ _
  | dir => exact List.cons_ne_nil _ _

/-! ## The order -/

/-- The files of a directory come first, by their names, and then, by theirs, its directories with what
they hold. -/
inductive ListedBefore : List String → List String → Prop where
  | files {a b : String} (h : a < b) : ListedBefore [a] [b]
  | fileFirst {a b : String} {rest : List String} (h : rest ≠ []) : ListedBefore [a] (b :: rest)
  | dirs {a b : String} {as bs : List String} (h : a < b) (has : as ≠ []) (hbs : bs ≠ []) :
      ListedBefore (a :: as) (b :: bs)
  | within {a : String} {as bs : List String} (h : ListedBefore as bs) : ListedBefore (a :: as) (a :: bs)

theorem ListedBefore.ne_nil {as bs : List String} (h : ListedBefore as bs) : as ≠ [] ∧ bs ≠ [] := by
  cases h with
  | _ => exact ⟨List.cons_ne_nil _ _, List.cons_ne_nil _ _⟩

theorem ListedBefore.asymm {as bs : List String} (h : ListedBefore as bs) : ¬ListedBefore bs as := by
  induction h with
  | files hab =>
    intro h'
    cases h' with
    | files hba => exact String.lt_asymm hab hba
    | fileFirst hne => exact hne rfl
    | dirs _ hne _ => exact hne rfl
    | within h' => exact h'.ne_nil.1 rfl
  | fileFirst hrest =>
    intro h'
    cases h' with
    | files => exact hrest rfl
    | fileFirst hne => exact hne rfl
    | dirs _ _ hne => exact hne rfl
    | within h' => exact h'.ne_nil.2 rfl
  | dirs hab has hbs =>
    intro h'
    cases h' with
    | files => exact has rfl
    | fileFirst => exact hbs rfl
    | dirs hba => exact String.lt_asymm hab hba
    | within => exact String.lt_irrefl _ hab
  | within h ih =>
    intro h'
    cases h' with
    | files => exact h.ne_nil.1 rfl
    | fileFirst => exact h.ne_nil.2 rfl
    | dirs haa => exact String.lt_irrefl _ haa
    | within h' => exact ih h'

instance : Std.Irrefl ListedBefore := ⟨fun _ h => h.asymm h⟩

instance : Std.Antisymm ListedBefore := ⟨fun _ _ h h' => absurd h' h.asymm⟩

theorem sortNames_pairwise {all : List String} (h : all.Nodup) : (sortNames all).Pairwise (· < ·) := by
  have hle : (sortNames all).Pairwise fun a b => decide (a ≤ b) = true := by
    refine List.pairwise_mergeSort ?_ ?_ all
    · intro a b c hab hbc
      rw [decide_eq_true_eq] at hab hbc ⊢
      exact String.le_trans hab hbc
    · intro a b
      rw [Bool.or_eq_true, decide_eq_true_eq, decide_eq_true_eq]
      exact String.le_total a b
  have hne : (sortNames all).Nodup := (List.mergeSort_perm all _).nodup_iff.mpr h
  refine List.Pairwise.imp₂ ?_ hle hne
  intro a b hab hne
  rw [decide_eq_true_eq] at hab
  exact String.not_le.mp fun hba => hne (String.le_antisymm hab hba)

/-! ## Lists in this order -/

/-- These are the paths, from here and in the order of a walk, of all that has a property. -/
def ListsBelow (here : Path) (paths : List Path) (p : List String → Prop) : Prop :=
  ∃ found : List (List String), paths = found.map here.below ∧ found.Pairwise ListedBefore ∧
    ∀ names, names ∈ found ↔ p names

section Lists

variable {paths more : List Path} {p q : List String → Prop}

theorem ListsBelow.nil (h : ∀ names, ¬p names) : ListsBelow here [] p :=
  ⟨[], rfl, .nil, fun names => ⟨fun hin => absurd hin List.not_mem_nil, fun hp => absurd hp (h names)⟩⟩

theorem ListsBelow.congr (h : ListsBelow here paths p) (hiff : ∀ names, p names ↔ q names) :
    ListsBelow here paths q := by
  obtain ⟨found, heq, hordered, hmem⟩ := h
  exact ⟨found, heq, hordered, fun names => (hmem names).trans (hiff names)⟩

theorem ListsBelow.append (h : ListsBelow here paths p) (h' : ListsBelow here more q)
    (hbefore : ∀ as bs, p as → q bs → ListedBefore as bs) :
    ListsBelow here (paths ++ more) fun names => p names ∨ q names := by
  obtain ⟨found, rfl, hordered, hmem⟩ := h
  obtain ⟨found', rfl, hordered', hmem'⟩ := h'
  refine ⟨found ++ found', List.map_append.symm, ?_, ?_⟩
  · rw [List.pairwise_append]
    exact ⟨hordered, hordered', fun as has bs hbs => hbefore as bs ((hmem as).mp has) ((hmem' bs).mp hbs)⟩
  · intro names
    rw [List.mem_append, hmem, hmem']

theorem ListsBelow.above (h : ListsBelow (here.child name) paths p) :
    ListsBelow here paths fun names => ∃ rest, names = name :: rest ∧ p rest := by
  obtain ⟨found, rfl, hordered, hmem⟩ := h
  refine ⟨found.map (name :: ·), ?_, ?_, ?_⟩
  · rw [List.map_map]
    exact List.map_congr_left fun rest _ => (here.below_cons name rest).symm
  · rw [List.pairwise_map]
    exact hordered.imp .within
  · intro names
    rw [List.mem_map]
    constructor
    · rintro ⟨rest, hrest, rfl⟩
      exact ⟨rest, rfl, (hmem rest).mp hrest⟩
    · rintro ⟨rest, rfl, hrest⟩
      exact ⟨rest, (hmem rest).mpr hrest, rfl⟩

theorem ListsBelow.unique {other : Path} (h : ListsBelow here paths p) (h' : ListsBelow other more p) :
    ∃ found : List (List String), paths = found.map here.below ∧ more = found.map other.below ∧ found.Nodup ∧
      ∀ names, names ∈ found ↔ p names := by
  obtain ⟨found, rfl, hordered, hmem⟩ := h
  obtain ⟨found', rfl, hordered', hmem'⟩ := h'
  obtain rfl : found = found' :=
    hordered.eq_of_mem_iff hordered' fun names => (hmem names).trans (hmem' names).symm
  exact ⟨found, rfl, rfl, hordered.nodup, hmem⟩

end Lists

/-! ## The walk -/

def DistinctBelow (children : List (String × Entry)) : Prop :=
  ∀ names inner, childAt children names = some (.dir inner) → Distinct inner

theorem DistinctBelow.inner (h : DistinctBelow children) {inner : List (String × Entry)}
    (hat : children.lookup name = some (.dir inner)) : DistinctBelow inner := by
  intro names inner' hinner'
  refine h (name :: names) inner' ?_
  rw [childAt_cons names hat]
  exact hinner'

theorem length_le_weights (children : List (String × Entry)) : 2 * children.length ≤ weights children := by
  induction children with
  | nil => exact Nat.le_refl _
  | cons child children ih =>
    obtain ⟨n, e⟩ := child
    have hweight : 1 ≤ e.weight := by
      cases e with
      | file content => exact Nat.le_refl 1
      | link target => exact Nat.le_refl 1
      | dir inner =>
        rw [Entry.weight]
        omega
    rw [weights, List.length_cons]
    omega

/-- A directory weighs more than what it holds and all that stands beside it. -/
theorem weights_inner {inner : List (String × Entry)} (h : (name, .dir inner) ∈ children) :
    children.length + weights inner + 2 ≤ weights children := by
  induction children with
  | nil => cases h
  | cons child children ih =>
    obtain ⟨n, e⟩ := child
    rw [weights, List.length_cons]
    rcases List.mem_cons.mp h with heq | hin
    · cases heq
      have hlength := length_le_weights children
      rw [Entry.weight]
      omega
    · have hrest := ih hin
      omega

def Tree.MeetsIn (t : Tree) (here : Path) (children : List (String × Entry)) (name : String)
    (names : List String) : Prop :=
  ∃ rest, names = name :: rest ∧ ∃ inner, children.lookup name = some (.dir inner) ∧ t.Meets (here.child name) inner rest

def Tree.listed (t : Tree) (here : Path) (children : List (String × Entry)) (asDirs : Bool) : List String :=
  sortNames ((children.filter fun c => t.countsAsDir (here.child c.1) c.2 == asDirs).map Prod.fst)

theorem mem_listed (hn : Distinct children) {asDirs : Bool} :
    name ∈ t.listed here children asDirs ↔
      ∃ e, children.lookup name = some e ∧ t.countsAsDir (here.child name) e = asDirs := by
  rw [Tree.listed, sortNames, List.mem_mergeSort, List.mem_map]
  constructor
  · rintro ⟨⟨n, e⟩, hin, rfl⟩
    obtain ⟨hmem, hkind⟩ := List.mem_filter.mp hin
    exact ⟨e, lookup_of_mem hn hmem, eq_of_beq hkind⟩
  · rintro ⟨e, hat, hkind⟩
    exact ⟨(name, e), List.mem_filter.mpr ⟨mem_of_lookup hat, beq_iff_eq.mpr hkind⟩, rfl⟩

theorem listed_pairwise (hn : Distinct children) (asDirs : Bool) :
    (t.listed here children asDirs).Pairwise (· < ·) :=
  sortNames_pairwise (hn.sublist (List.filter_sublist.map Prod.fst))

theorem length_listed_le (t : Tree) (here : Path) (children : List (String × Entry)) (asDirs : Bool) :
    (t.listed here children asDirs).length ≤ children.length := by
  rw [Tree.listed, sortNames, List.length_mergeSort, List.length_map]
  exact List.length_filter_le _ _

theorem walk_succ (t : Tree) (here : Path) (fuel : Nat) (children : List (String × Entry)) :
    t.walk here (fuel + 1) children =
      ((t.listed here children false).filter (!isHidden ·)).map here.child ++
        t.walkDirs here fuel children ((t.listed here children true).filter isSearched) := by
  have hkind (c : String × Entry) : t.countsAsDir (here.child c.1) c.2 =
      match c.2 with
      | .dir _ => true
      | .link _ => t.leadsToDir (here.child c.1)
      | .file _ => false := by
    obtain ⟨n, e⟩ := c
    cases e <;> rfl
  rw [Tree.walk]
  simp only [Tree.listed, hkind, beq_true, beq_false]
  rfl

theorem listsBelow_files (hn : Distinct children) :
    ListsBelow here (((t.listed here children false).filter (!isHidden ·)).map here.child) fun names =>
      ∃ name e, names = [name] ∧ children.lookup name = some e ∧ t.countsAsDir (here.child name) e = false ∧
        isHidden name = false := by
  refine ⟨((t.listed here children false).filter (!isHidden ·)).map fun name => [name], ?_, ?_, ?_⟩
  · rw [List.map_map]
    rfl
  · rw [List.pairwise_map]
    exact ((listed_pairwise hn false).filter _).imp .files
  · intro names
    simp only [List.mem_map, List.mem_filter, mem_listed hn, Bool.not_eq_true']
    constructor
    · rintro ⟨name, ⟨⟨e, hat, hfile⟩, hshown⟩, rfl⟩
      exact ⟨name, e, rfl, hat, hfile, hshown⟩
    · rintro ⟨name, e, rfl, hat, hfile, hshown⟩
      exact ⟨name, ⟨⟨e, hat, hfile⟩, hshown⟩, rfl⟩

def WalksAll (t : Tree) (fuel : Nat) : Prop := ∀ {here : Path} {children : List (String × Entry)},
  DistinctBelow children → 2 * weights children + 2 ≤ fuel →
    ListsBelow here (t.walk here fuel children) (t.Meets here children)

def WalksDirs (t : Tree) (fuel : Nat) : Prop := ∀ {here : Path} {children : List (String × Entry)} {dirs : List String},
  DistinctBelow children → dirs.Pairwise (· < ·) →
    (∀ name ∈ dirs, ∀ inner, children.lookup name = some (.dir inner) → 2 * weights inner + 2 + dirs.length ≤ fuel) →
      ListsBelow here (t.walkDirs here fuel children dirs) fun names =>
        ∃ name ∈ dirs, t.MeetsIn here children name names

theorem meets_iff (hn : Distinct children) : t.Meets here children names ↔
    (∃ name e, names = [name] ∧ children.lookup name = some e ∧ t.countsAsDir (here.child name) e = false ∧
      isHidden name = false) ∨
    ∃ name ∈ (t.listed here children true).filter isSearched, t.MeetsIn here children name names := by
  constructor
  · intro h
    cases h with
    | file hat hfile hshown => exact .inl ⟨_, _, rfl, hat, hfile, hshown⟩
    | dir hat hsearched h =>
      refine .inr ⟨_, List.mem_filter.mpr ⟨(mem_listed hn).mpr ⟨_, hat, rfl⟩, hsearched⟩, _, rfl, _, hat, h⟩
  · rintro (⟨name, e, rfl, hat, hfile, hshown⟩ | ⟨name, hname, rest, rfl, inner, hat, h⟩)
    · exact .file hat hfile hshown
    · exact .dir hat (List.mem_filter.mp hname).2 h

theorem walksAll_succ (hdirs : WalksDirs t fuel) : WalksAll t (fuel + 1) := by
  intro here children hn hfuel
  have hdistinct : Distinct children := hn [] children rfl
  have hordered : ((t.listed here children true).filter isSearched).Pairwise (· < ·) :=
    (listed_pairwise hdistinct true).filter _
  have henough : ∀ name ∈ (t.listed here children true).filter isSearched, ∀ inner,
      children.lookup name = some (.dir inner) →
        2 * weights inner + 2 + ((t.listed here children true).filter isSearched).length ≤ fuel := by
    intro name _ inner hat
    have hweights := weights_inner (mem_of_lookup hat)
    have hlength := length_listed_le t here children true
    have hfiltered := List.length_filter_le isSearched (t.listed here children true)
    omega
  rw [walk_succ]
  refine ((listsBelow_files hdistinct).append (hdirs hn hordered henough) ?_).congr ?_
  · rintro _ _ ⟨a, _, rfl, _⟩ ⟨b, _, rest, rfl, inner, _, hmeets⟩
    exact .fileFirst hmeets.ne_nil
  · intro names
    exact (meets_iff hdistinct).symm

theorem listsBelow_inner (here : Path) (hall : WalksAll t fuel) (hn : DistinctBelow children)
    (hfuel : ∀ inner, children.lookup name = some (.dir inner) → 2 * weights inner + 2 ≤ fuel) :
    ListsBelow here (match children.lookup name with
      | some (.dir inner) => t.walk (here.child name) fuel inner
      | _ => []) (t.MeetsIn here children name) := by
  split
  · next inner hat =>
    refine (hall (hn.inner hat) (hfuel inner hat)).above.congr ?_
    intro names
    constructor
    · rintro ⟨rest, rfl, hmeets⟩
      exact ⟨rest, rfl, inner, hat, hmeets⟩
    · rintro ⟨rest, rfl, inner', hat', hmeets⟩
      cases hat.symm.trans hat'
      exact ⟨rest, rfl, hmeets⟩
  · next hno =>
    refine .nil ?_
    rintro names ⟨rest, _, inner, hat, _⟩
    exact hno inner hat

theorem walksDirs_succ (hall : WalksAll t fuel) (hdirs : WalksDirs t fuel) : WalksDirs t (fuel + 1) := by
  intro here children dirs hn hordered hfuel
  cases dirs with
  | nil =>
    rw [Tree.walkDirs]
    · exact .nil fun names h => by
        obtain ⟨name, hname, _⟩ := h
        exact List.not_mem_nil hname
    · exact fun h => by cases h
  | cons name dirs =>
    obtain ⟨hfirst, hordered⟩ := List.pairwise_cons.mp hordered
    have hfuel' : ∀ other ∈ dirs, ∀ inner, children.lookup other = some (.dir inner) →
        2 * weights inner + 2 + dirs.length ≤ fuel := by
      intro other hother inner hat
      have henough := hfuel other (List.mem_cons_of_mem name hother) inner hat
      rw [List.length_cons] at henough
      omega
    have hrest : ListsBelow here (t.walkDirs here fuel children dirs) fun names =>
        ∃ other ∈ dirs, t.MeetsIn here children other names := hdirs hn hordered hfuel'
    have hfuel'' : ∀ inner, children.lookup name = some (.dir inner) → 2 * weights inner + 2 ≤ fuel := by
      intro inner hat
      have henough := hfuel name List.mem_cons_self inner hat
      rw [List.length_cons] at henough
      omega
    have hinner := listsBelow_inner here hall hn hfuel''
    rw [Tree.walkDirs]
    refine (hinner.append hrest ?_).congr ?_
    · rintro _ _ ⟨as, rfl, _, _, hmeets⟩ ⟨other, hother, bs, rfl, _, _, hmeets'⟩
      exact .dirs (hfirst other hother) hmeets.ne_nil hmeets'.ne_nil
    · intro names
      simp only [List.mem_cons, exists_eq_or_imp]

theorem walks (t : Tree) (fuel : Nat) : WalksAll t fuel ∧ WalksDirs t fuel := by
  -- each unit of fuel goes into one directory or past one name, which is what the bounds count
  induction fuel with
  | zero =>
    refine ⟨?_, ?_⟩
    · intro here children hn hfuel
      omega
    · intro here children dirs hn hordered hfuel
      rw [Tree.walkDirs]
      refine .nil ?_
      rintro names ⟨name, hname, rest, _, inner, hat, _⟩
      have henough := hfuel name hname inner hat
      omega
  | succ fuel ih => exact ⟨walksAll_succ ih.2, walksDirs_succ ih.1 ih.2⟩

/-- A walk lists what it meets, if it has as much fuel as the directory weighs. -/
theorem listsBelow_walk (hn : DistinctBelow children) (hfuel : 2 * weights children + 2 ≤ fuel) :
    ListsBelow here (t.walk here fuel children) (t.Meets here children) := (walks t fuel).1 hn hfuel

end JudgedLint.Workspace
