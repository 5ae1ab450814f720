import JudgedLint.Workspace.Tree
import Mathlib.Logic.Basic

/-! Entries of a tree, and what stands where after one of them is put in a place whose directory
exists: that entry in its place, and everywhere else what stood there before, except that the
directories above hold it. -/
namespace JudgedLint.Workspace

open Text (Bytes)

/-- An entry, apart from what a directory holds. -/
inductive Face where
  | file (content : Bytes)
  | link (target : String)
  | dir
  deriving DecidableEq

def Entry.face : Entry → Face
  | .file content => .file content
  | .link target => .link target
  | .dir _ => .dir

def faceAt (children : List (String × Entry)) (names : List String) : Option Face :=
  (childAt children names).map Entry.face

section Face

variable {children : List (String × Entry)} {names : List String}

theorem faceAt_eq_none : faceAt children names = none ↔ childAt children names = none :=
  Option.map_eq_none_iff

theorem faceAt_eq_file {content : Bytes} :
    faceAt children names = some (.file content) ↔ childAt children names = some (.file content) := by
  rw [faceAt]
  cases childAt children names with
  | none => simp
  | some e => cases e <;> simp [Entry.face]

theorem faceAt_eq_link {target : String} :
    faceAt children names = some (.link target) ↔ childAt children names = some (.link target) := by
  rw [faceAt]
  cases childAt children names with
  | none => simp
  | some e => cases e <;> simp [Entry.face]

theorem faceAt_eq_dir :
    faceAt children names = some .dir ↔ ∃ inner, childAt children names = some (.dir inner) := by
  rw [faceAt]
  cases childAt children names with
  | none => simp
  | some e => cases e <;> simp [Entry.face]

end Face

theorem childAt_cons {children inner : List (String × Entry)} {name : String} (rest : List String)
    (h : children.lookup name = some (.dir inner)) :
    childAt children (name :: rest) = childAt inner rest := by
  cases rest with
  | nil => exact h
  | cons next rest => rw [childAt, h]; simp

theorem childAt_cons_cons_none {children : List (String × Entry)} {name : String} (next : String)
    (rest : List String) (h : ∀ inner, children.lookup name ≠ some (.dir inner)) :
    childAt children (name :: next :: rest) = none := by
  rw [childAt]
  · split
    · next inner hinner => exact absurd hinner (h inner)
    · rfl
  · simp

theorem childAt_nil_cons (name : String) (rest : List String) : childAt [] (name :: rest) = none := by
  cases rest with
  | nil => rfl
  | cons next rest => exact childAt_cons_cons_none next rest (by simp)

theorem childAt_of_no_children {children : List (String × Entry)} {name : String} {e : Entry}
    (h : children.lookup name = some e) (he : ∀ below, e = .dir below → below = []) (next : String)
    (rest : List String) : childAt children (name :: next :: rest) = none := by
  cases e with
  | dir below =>
    obtain rfl := he below rfl
    rw [childAt_cons _ h, childAt_nil_cons]
  | file content => exact childAt_cons_cons_none next rest (by simp [h])
  | link target => exact childAt_cons_cons_none next rest (by simp [h])

theorem lookup_of_childAt_dir {children inner : List (String × Entry)} {name : String}
    {rest : List String} (h : childAt children (name :: rest) = some (.dir inner)) :
    ∃ below, children.lookup name = some (.dir below) ∧ childAt below rest = some (.dir inner) := by
  cases rest with
  | nil => exact ⟨inner, h, rfl⟩
  | cons next rest =>
    rw [childAt] at h
    · split at h
      · next below hbelow => exact ⟨below, hbelow, h⟩
      · cases h
    · simp

theorem childAt_concat {children : List (String × Entry)} {above : List String} {name : String}
    {e : Entry} (h : childAt children (above ++ [name]) = some e) :
    ∃ inner, childAt children above = some (.dir inner) ∧ inner.lookup name = some e := by
  induction above generalizing children with
  | nil => exact ⟨children, rfl, h⟩
  | cons first above ih =>
    rw [List.cons_append, childAt] at h
    · split at h
      · next below hbelow =>
        rw [childAt_cons _ hbelow]
        exact ih h
      · cases h
    · simp

theorem childAt_append {children inner : List (String × Entry)} {names : List String}
    (rest : List String) (h : childAt children names = some (.dir inner)) :
    childAt children (names ++ rest) = childAt inner rest := by
  induction names generalizing children with
  | nil =>
    cases h
    rfl
  | cons name names ih =>
    obtain ⟨below, hl, hbelow⟩ := lookup_of_childAt_dir h
    rw [List.cons_append, childAt_cons _ hl]
    exact ih hbelow

theorem childAt_congr {children children' : List (String × Entry)} {name : String}
    (rest : List String) (h : children'.lookup name = children.lookup name) :
    childAt children' (name :: rest) = childAt children (name :: rest) := by
  cases rest with
  | nil => exact h
  | cons next rest =>
    rw [childAt, childAt, h]
    · simp
    · simp

theorem lookup_setChild (name : String) (e : Entry) (children : List (String × Entry)) :
    (setChild name e children).lookup name = some e := by
  induction children with
  | nil => simp [setChild]
  | cons child rest ih =>
    obtain ⟨n, old⟩ := child
    simp only [setChild]
    split
    · next heq => rw [← beq_iff_eq.mp heq, List.lookup_cons_self]
    · next hne =>
      rw [List.lookup_cons, beq_eq_false_iff_ne.mpr fun he => hne (beq_iff_eq.mpr he.symm)]
      exact ih

theorem lookup_setChild_ne {name other : String} (e : Entry) (children : List (String × Entry))
    (h : other ≠ name) : (setChild name e children).lookup other = children.lookup other := by
  induction children with
  | nil => simp [setChild, List.lookup_cons, beq_eq_false_iff_ne.mpr h]
  | cons child rest ih =>
    obtain ⟨n, old⟩ := child
    simp only [setChild]
    split
    · next heq =>
      obtain rfl := beq_iff_eq.mp heq
      simp [List.lookup_cons, beq_eq_false_iff_ne.mpr h]
    · simp only [List.lookup_cons, ih]

theorem lookup_filter_self (name : String) (children : List (String × Entry)) :
    (children.filter (·.1 != name)).lookup name = none := by
  rw [List.lookup_eq_none_iff]
  intro child hchild
  have hne := (List.mem_filter.mp hchild).2
  rwa [bne_comm] at hne

theorem lookup_filter_ne {name other : String} (children : List (String × Entry))
    (h : other ≠ name) : (children.filter (·.1 != name)).lookup other = children.lookup other := by
  induction children with
  | nil => rfl
  | cons child rest ih =>
    obtain ⟨n, e⟩ := child
    by_cases hn : n = name
    · subst hn
      rw [List.filter_cons_of_neg (by simp), ih, List.lookup_cons, beq_eq_false_iff_ne.mpr h]
    · rw [List.filter_cons_of_pos (by simpa using hn), List.lookup_cons, List.lookup_cons, ih]

theorem setChild_setChild (name : String) (e e' : Entry) (children : List (String × Entry)) :
    setChild name e' (setChild name e children) = setChild name e' children := by
  induction children with
  | nil => simp [setChild]
  | cons child rest ih =>
    obtain ⟨n, old⟩ := child
    by_cases hn : (n == name) = true
    · simp only [setChild, hn, if_true]
    · simp only [setChild, hn, Bool.false_eq_true, if_false, ih]

theorem setChild_self {name : String} {e : Entry} {children : List (String × Entry)}
    (h : children.lookup name = some e) : setChild name e children = children := by
  induction children with
  | nil => cases h
  | cons child rest ih =>
    obtain ⟨n, old⟩ := child
    by_cases hn : n = name
    · subst hn
      rw [List.lookup_cons_self] at h
      cases h
      simp [setChild]
    · rw [List.lookup_cons, beq_eq_false_iff_ne.mpr fun he => hn he.symm] at h
      simp [setChild, hn, ih h]

theorem filter_setChild {name : String} (e : Entry) {children : List (String × Entry)}
    (h : children.lookup name = none) : (setChild name e children).filter (·.1 != name) = children := by
  induction children with
  | nil => simp [setChild]
  | cons child rest ih =>
    obtain ⟨n, old⟩ := child
    have hn : n ≠ name := by
      rintro rfl
      rw [List.lookup_cons_self] at h
      cases h
    rw [List.lookup_cons, beq_eq_false_iff_ne.mpr hn.symm] at h
    simp [setChild, hn, ih h]

/-- Something is done to what the directory at the end of a list of names holds. -/
def alterAt (f : List (String × Entry) → List (String × Entry)) :
    List String → List (String × Entry) → List (String × Entry)
  | [], children => f children
  | first :: above, children =>
    match children.lookup first with
    | some (.dir below) => setChild first (.dir (alterAt f above below)) children
    | _ => children

section Alter

variable {f : List (String × Entry) → List (String × Entry)} {children inner below : List (String × Entry)}
  {first name : String} {above names : List String}

theorem alterAt_cons (h : children.lookup first = some (.dir below)) :
    alterAt f (first :: above) children = setChild first (.dir (alterAt f above below)) children := by
  rw [alterAt, h]

theorem putAt_eq (name : String) (e : Entry) (h : childAt children above = some (.dir inner)) :
    putAt e (above ++ [name]) children = alterAt (setChild name e) above children := by
  induction above generalizing children with
  | nil => rfl
  | cons first above ih =>
    obtain ⟨below, hl, hbelow⟩ := lookup_of_childAt_dir h
    rw [List.cons_append, alterAt_cons hl, ← ih hbelow, putAt]
    · rw [hl]
    · simp

theorem removeAt_eq (name : String) (h : childAt children above = some (.dir inner)) :
    removeAt (above ++ [name]) children = alterAt (·.filter (·.1 != name)) above children := by
  induction above generalizing children with
  | nil => rfl
  | cons first above ih =>
    obtain ⟨below, hl, hbelow⟩ := lookup_of_childAt_dir h
    rw [List.cons_append, alterAt_cons hl, ← ih hbelow, removeAt]
    · rw [hl]
    · simp

theorem childAt_alterAt (rest : List String) (h : childAt children above = some (.dir inner)) :
    childAt (alterAt f above children) (above ++ rest) = childAt (f inner) rest := by
  induction above generalizing children with
  | nil =>
    cases h
    rfl
  | cons first above ih =>
    obtain ⟨below, hl, hbelow⟩ := lookup_of_childAt_dir h
    rw [List.cons_append, alterAt_cons hl, childAt_cons _ (lookup_setChild _ _ _)]
    exact ih hbelow

theorem childAt_alterAt_self (h : childAt children above = some (.dir inner)) :
    childAt (alterAt f above children) above = some (.dir (f inner)) := by
  have hdir := childAt_alterAt (f := f) [] h
  rwa [List.append_nil] at hdir

theorem alterAt_alterAt {g : List (String × Entry) → List (String × Entry)}
    (h : childAt children above = some (.dir inner)) :
    alterAt g above (alterAt f above children) = alterAt (g ∘ f) above children := by
  induction above generalizing children with
  | nil => rfl
  | cons first above ih =>
    obtain ⟨below, hl, hbelow⟩ := lookup_of_childAt_dir h
    rw [alterAt_cons hl, alterAt_cons (lookup_setChild _ _ _), alterAt_cons hl, ih hbelow,
      setChild_setChild]

theorem alterAt_self (h : childAt children above = some (.dir inner)) (hf : f inner = inner) :
    alterAt f above children = children := by
  induction above generalizing children with
  | nil =>
    cases h
    exact hf
  | cons first above ih =>
    obtain ⟨below, hl, hbelow⟩ := lookup_of_childAt_dir h
    rw [alterAt_cons hl, ih hbelow, setChild_self hl]

/-- When one name of the directory is concerned, everywhere else the same stands as before, if nothing
stood below the name, and nothing does. -/
theorem faceAt_alterAt_ne (h : childAt children above = some (.dir inner))
    (hothers : ∀ n ≠ name, (f inner).lookup n = inner.lookup n)
    (hold : ∀ below, inner.lookup name ≠ some (.dir below))
    (hnew : ∀ below, (f inner).lookup name = some (.dir below) → below = [])
    (hne : names ≠ above ++ [name]) :
    faceAt (alterAt f above children) names = faceAt children names := by
  induction above generalizing children names with
  | nil =>
    cases h
    cases names with
    | nil => rfl
    | cons n rest =>
      by_cases hn : n = name
      · subst hn
        cases rest with
        | nil => exact absurd rfl hne
        | cons next rest =>
          rw [faceAt, faceAt, alterAt, childAt_cons_cons_none next rest hold]
          refine congrArg _ ?_
          cases hl : (f inner).lookup n with
          | none => exact childAt_cons_cons_none next rest (by simp [hl])
          | some e => exact childAt_of_no_children hl (fun below he => hnew below (he ▸ hl)) next rest
      · exact congrArg _ (childAt_congr rest (hothers n hn))
  | cons first above ih =>
    obtain ⟨below, hl, hbelow⟩ := lookup_of_childAt_dir h
    rw [alterAt_cons hl]
    cases names with
    | nil => rfl
    | cons n rest =>
      by_cases hn : n = first
      · subst hn
        rw [faceAt, faceAt, childAt_cons rest hl, childAt_cons rest (lookup_setChild _ _ _)]
        exact ih hbelow fun hrest => hne (by rw [hrest, List.cons_append])
      · exact congrArg _ (childAt_congr rest (lookup_setChild_ne _ children hn))

theorem childAt_putAt (name : String) (e : Entry) (h : childAt children above = some (.dir inner)) :
    childAt (putAt e (above ++ [name]) children) (above ++ [name]) = some e := by
  rw [putAt_eq name e h, childAt_alterAt _ h]
  exact lookup_setChild name e inner

/-- Everywhere else the same stands as before, when no directory is replaced, and none is put but an
empty one. -/
theorem faceAt_putAt_ne {e : Entry} (h : childAt children above = some (.dir inner))
    (he : ∀ below, e = .dir below → below = [])
    (hold : ∀ below, childAt children (above ++ [name]) ≠ some (.dir below))
    (hne : names ≠ above ++ [name]) :
    faceAt (putAt e (above ++ [name]) children) names = faceAt children names := by
  rw [putAt_eq name e h]
  refine faceAt_alterAt_ne h (fun n hn => lookup_setChild_ne e inner hn) ?_ ?_ hne
  · simp only [childAt_append _ h] at hold
    exact hold
  · intro below hbelow
    rw [lookup_setChild] at hbelow
    exact he below (Option.some.inj hbelow)

theorem childAt_removeAt (name : String) (h : childAt children above = some (.dir inner)) :
    childAt (removeAt (above ++ [name]) children) (above ++ [name]) = none := by
  rw [removeAt_eq name h, childAt_alterAt _ h]
  exact lookup_filter_self name inner

theorem putAt_putAt (name : String) (e e' : Entry) (h : childAt children above = some (.dir inner)) :
    putAt e' (above ++ [name]) (putAt e (above ++ [name]) children) =
      putAt e' (above ++ [name]) children := by
  rw [putAt_eq name e h, putAt_eq name e' (childAt_alterAt_self h), alterAt_alterAt h, putAt_eq name e' h]
  exact congrArg (alterAt · above children) (funext (setChild_setChild name e e'))

theorem removeAt_putAt (name : String) (e : Entry) (h : childAt children above = some (.dir inner))
    (hfree : inner.lookup name = none) :
    removeAt (above ++ [name]) (putAt e (above ++ [name]) children) = children := by
  rw [putAt_eq name e h, removeAt_eq name (childAt_alterAt_self h), alterAt_alterAt h]
  exact alterAt_self h (filter_setChild e hfree)

theorem faceAt_removeAt_ne (h : childAt children above = some (.dir inner))
    (hold : ∀ below, childAt children (above ++ [name]) ≠ some (.dir below))
    (hne : names ≠ above ++ [name]) :
    faceAt (removeAt (above ++ [name]) children) names = faceAt children names := by
  rw [removeAt_eq name h]
  refine faceAt_alterAt_ne h (fun n hn => lookup_filter_ne inner hn) ?_ ?_ hne
  · simp only [childAt_append _ h] at hold
    exact hold
  · intro below hbelow
    rw [lookup_filter_self] at hbelow
    cases hbelow

end Alter

theorem filesBelow_setChild_new {children : List (String × Entry)} {name : String} (path : String)
    (h : children.lookup name = none) :
    filesBelow path (setChild name (.dir []) children) = filesBelow path children := by
  induction children with
  | nil => simp [setChild, filesBelow, filesOf]
  | cons child rest ih =>
    obtain ⟨n, old⟩ := child
    have hne : (name == n) = false := by
      cases heq : name == n with
      | false => rfl
      | true => simp [List.lookup_cons, heq] at h
    simp only [List.lookup_cons, hne] at h
    simp only [setChild, filesBelow]
    rw [if_neg (by simpa using fun he : n = name => (beq_eq_false_iff_ne.mp hne) he.symm), filesBelow,
      ih h]

theorem filesBelow_setChild {children below below' : List (String × Entry)} {name : String}
    (path : String) (h : children.lookup name = some (.dir below))
    (hb : ∀ path, filesBelow path below' = filesBelow path below) :
    filesBelow path (setChild name (.dir below') children) = filesBelow path children := by
  induction children with
  | nil => cases h
  | cons child rest ih =>
    obtain ⟨n, old⟩ := child
    rw [List.lookup_cons] at h
    rcases eq_or_ne n name with rfl | hn
    · rw [beq_self_eq_true] at h
      cases h
      simp only [setChild, beq_self_eq_true, if_true, filesBelow, filesOf, hb]
    · rw [beq_eq_false_iff_ne.mpr hn.symm] at h
      simp only [setChild, beq_eq_false_iff_ne.mpr hn, Bool.false_eq_true, if_false, filesBelow, ih h]

theorem filesBelow_putAt {children inner : List (String × Entry)} {above : List String}
    {name : String} (h : childAt children above = some (.dir inner))
    (hnew : childAt children (above ++ [name]) = none) (path : String) :
    filesBelow path (putAt (.dir []) (above ++ [name]) children) = filesBelow path children := by
  rw [putAt_eq name _ h]
  induction above generalizing children path with
  | nil => exact filesBelow_setChild_new path hnew
  | cons first above ih =>
    obtain ⟨below, hl, hbelow⟩ := lookup_of_childAt_dir h
    rw [List.cons_append, childAt_cons _ hl] at hnew
    rw [alterAt_cons hl]
    exact filesBelow_setChild path hl fun path => ih hbelow hnew path

end JudgedLint.Workspace
