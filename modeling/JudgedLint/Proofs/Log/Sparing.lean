import JudgedLint.Log.Sink
import JudgedLint.Proofs.Workspace.Files

/-! What the log leaves alone. Records go to the log file and, when that grows too large, to its
numbered older files; a file that is none of these stays as it is. -/
namespace JudgedLint.Log

open Workspace (LeadsTo Path Tree)

variable {now : Calendar.Moment} {t t' t'' : Tree} {place : List String}

namespace LogFile

variable {f : LogFile}

/-- The log file and its older files are files or free names, and none of them is in this place. -/
def Apart (f : LogFile) (t : Tree) (place : List String) : Prop :=
  ∀ n ≤ f.backups.toNat, ∃ own ≠ place, LeadsTo own (t.locateLink (f.numbered n))

/-- The log has done something that leaves this place alone, and it still is apart from it. -/
structure Leaves (f : LogFile) (place : List String) (t t' : Tree) : Prop where
  apart : f.Apart t' place
  keeps : t.Keeps t' place

theorem Apart.leaves (h : f.Apart t place) : f.Leaves place t t := ⟨h, .refl t place⟩

theorem Leaves.trans (h : f.Leaves place t t') (h' : f.Leaves place t' t'') :
    f.Leaves place t t'' :=
  ⟨h'.apart, h.keeps.trans h'.keeps⟩

theorem Apart.change {own : List String} (h : f.Apart t place) (hne : own ≠ place)
    (ha : t.AgreesApart t' own) (hold : t.IsFileOrFree own) (hnew : t'.IsFileOrFree own) :
    f.Leaves place t t' := by
  constructor
  case keeps => exact ha.keeps hold hne.symm
  case apart =>
    intro n hn
    obtain ⟨other, hother, hleads⟩ := h n hn
    refine ⟨other, hother, ?_⟩
    have hstays : t'.IsFileOrFree other := by
      by_cases heq : other = own
      · exact heq ▸ hnew
      · exact ha.isFileOrFree heq (Workspace.isFileOrFree_of_leadsTo hleads)
    rw [Workspace.locateLink_agreesApart_other ha hold hstays hleads]
    exact hstays.leadsTo

theorem Apart.extend (h : f.Apart t place) (bytes : List UInt8) :
    f.Leaves place t (extend f.path bytes t) := by
  unfold LogFile.extend
  dsimp only
  cases hw : t.write f.path (((t.read f.path).toOption).getD [] ++ bytes) with
  | error e => exact h.leaves
  | ok t' =>
    obtain ⟨own, hwritten⟩ := Workspace.write_eq_ok hw
    obtain ⟨own', hne, hleads⟩ := h 0 (Nat.zero_le _)
    have hsame : t.locate f.path = t.locateLink f.path :=
      Workspace.locate_of_not_link (Workspace.not_link_of_leadsTo hleads)
    have hown : own = own' := Workspace.leadsTo_unique hwritten.old (hsame ▸ hleads)
    exact h.change (hown ▸ hne) hwritten.apart (Workspace.room_of_locate hwritten.old).1
      (.inr ⟨_, (Workspace.locate_sound hwritten.leads).1⟩)

theorem Apart.moveUp {n : Nat} (h : f.Apart t place) (hn : n < f.backups.toNat) :
    f.Leaves place t (f.moveUp t n) := by
  have hrename : ∀ t', t.rename (f.numbered n) (f.numbered (n + 1)) = .ok t' →
      f.Leaves place t t' := by
    intro t' hr
    obtain ⟨own, hne, hleads⟩ := h n (Nat.le_of_lt hn)
    obtain hfree | ⟨content, hfound⟩ := id hleads
    · simp only [Tree.rename, hfree] at hr
      cases hr
    · have hroom := Workspace.hasRoom_of_leadsTo hleads
      have hold := Workspace.isFileOrFree_of_leadsTo hleads
      have hgone : f.Leaves place t (t.without own) :=
        h.change hne (Workspace.without_agreesApart hroom hold) hold
          (.inl (Workspace.childAt_without hroom))
      obtain ⟨next, hnext, hleads'⟩ := hgone.apart (n + 1) hn
      have hput : f.Leaves place (t.without own) ((t.without own).put next (.file content)) := by
        have hroom' := Workspace.hasRoom_of_leadsTo hleads'
        have hold' := Workspace.isFileOrFree_of_leadsTo hleads'
        exact hgone.apart.change hnext (Workspace.put_agreesApart hroom' hold' (by simp)) hold'
          (.inr ⟨content, Workspace.childAt_put hroom' _⟩)
      have ht' : t' = (t.without own).put next (.file content) := by
        have hremoved : { t with children := Workspace.removeAt own t.children } = t.without own := rfl
        simp only [Tree.rename, hfound, hremoved] at hr
        obtain hfree | ⟨content', hfound'⟩ := hleads'
        · rw [hfree] at hr
          exact (Except.ok.inj hr).symm
        · rw [hfound'] at hr
          exact (Except.ok.inj hr).symm
      rw [ht']
      exact hgone.trans hput
  unfold LogFile.moveUp
  split
  · cases hr : t.rename (f.numbered n) (f.numbered (n + 1)) with
    | error e => exact h.leaves
    | ok t' => exact hrename t' hr
  · exact h.leaves

theorem Apart.rotate (h : f.Apart t place) : f.Leaves place t (f.rotate t) := by
  unfold LogFile.rotate
  split
  · exact h.leaves
  · have hnumbers : ∀ n ∈ (List.range f.backups.toNat).reverse, n < f.backups.toNat := by
      intro n hn
      exact List.mem_range.mp (List.mem_reverse.mp hn)
    generalize (List.range f.backups.toNat).reverse = numbers at hnumbers
    induction numbers generalizing t with
    | nil => exact h.leaves
    | cons n rest ih =>
      have hmoved := h.moveUp (hnumbers n List.mem_cons_self)
      exact hmoved.trans (ih hmoved.apart fun m hm => hnumbers m (List.mem_cons_of_mem _ hm))

theorem Apart.append (h : f.Apart t place) (line : String) : f.Leaves place t (f.append t line) := by
  unfold LogFile.append
  split
  · exact h.leaves
  · have hopened := h.extend []
    dsimp only
    split
    · have hrotated := hopened.apart.rotate
      exact hopened.trans (hrotated.trans (hrotated.apart.extend _))
    · exact hopened.trans (hopened.apart.extend _)

end LogFile

namespace Sink

variable {s : Sink}

/-- Whatever is written to the log, the file in this place is kept. -/
def Spares (s : Sink) (now : Calendar.Moment) (t : Tree) (place : List String) : Prop :=
  ∀ rs, t.Keeps (s.write now t rs).2 place

theorem write_nil (s : Sink) (now : Calendar.Moment) (t : Tree) : (s.write now t []).2 = t := by
  simp only [write, List.filter_nil, List.map_nil, List.foldl_nil]
  cases s.file <;> rfl

theorem write_append (s : Sink) (now : Calendar.Moment) (t : Tree) (rs rs' : List Record) :
    (s.write now t (rs ++ rs')).2 = (s.write now (s.write now t rs).2 rs').2 := by
  simp only [write, List.filter_append, List.map_append, List.foldl_append]
  cases s.file <;> rfl

theorem spares_of_no_file (h : s.file = none) : s.Spares now t place := by
  intro rs
  simp only [write, h]
  exact .refl t place

theorem spares_of_apart {f : LogFile} (hf : s.file = some f) (h : f.Apart t place) :
    s.Spares now t place := by
  have hall : ∀ (lines : List String) (t : Tree), f.Apart t place →
      f.Leaves place t (lines.foldl f.append t) := by
    intro lines
    induction lines with
    | nil => exact fun t h => h.leaves
    | cons line rest ih =>
      intro t h
      exact (h.append line).trans (ih _ (h.append line).apart)
  intro rs
  simp only [write, hf]
  exact (hall _ t h).keeps

end Sink
end JudgedLint.Log
