import JudgedLint.Proofs.Cache.Roundtrip
import JudgedLint.Proofs.Workspace.Files
import Mathlib.Algebra.Order.BigOperators.Group.List
import Mathlib.Algebra.Order.Group.Nat

/-! A save, and a clearing, step by step, with faults of the system at any of the steps. A save that is
stopped leaves every file as it was, and no temporary file; a save that is not has put all that is
written of the document in the place of the cache file. A clearing that is stopped has changed nothing. -/
namespace JudgedLint.Cache

open Text (Bytes utf8Encode)
open Workspace (Entry.isDir FileError LeadsTo Tree childAt)

namespace Store

def content (s : Store) : Bytes := utf8Encode (encode s.document)

/-! ### A save -/

/-- How a temporary file is named, with some letters that are drawn. -/
def spareName (letters : String) : String := ".cache-" ++ letters ++ ".json.tmp"

/-- A new name for a temporary file, in the directory of the cache. -/
structure Spare (s : Store) (t : Tree) (temp : List String) : Prop where
  beside : ∃ dir inner letters, t.locate s.dir = .ok (.found dir (.dir inner)) ∧
    temp = dir ++ [spareName letters]
  free : childAt t.children temp = none

/-- How far a save is. While it is `failing`, an error is on its way to the caller. -/
inductive Stage where
  | starting
  | ready
  | writing (temp : List String) (written : Bytes)
  | closed (temp : List String)
  | failing (temp : List String) (cause : Cause SaveError)
  | saved
  | failed (cause : Cause SaveError)

structure Saving where
  store : Store
  tree : Tree
  stage : Stage

def Stage.ofResult {α : Type} : Except SaveError α → Stage
  | .ok _ => .saved
  | .error e => .failed (.error e)

variable {s : Store} {t t' base : Tree} {temp : List String} {notes : List Log.Record}

namespace Saving

/-- The directory is made; the content is written to a temporary file, piece by piece; the file is closed,
and takes the place of the cache file. What stops this while there is a temporary file has it removed. -/
inductive Step : Saving → Saving → Prop where
  | made {s : Store} {t t' : Tree} (h : t.makeDirs s.dir = (.ok (), t')) :
    Step ⟨s, t, .starting⟩ ⟨s, t', .ready⟩
  | unmade {s : Store} {t t' : Tree} {e : FileError} (h : t.makeDirs s.dir = (.error e, t')) :
    Step ⟨s, t, .starting⟩ ⟨s, t', .failed (.error (.file e))⟩
  /-- Some of the directories have been made before the fault. -/
  | halfMade {s : Store} {t t' : Tree} (h : Tree.Paved s.dir t t') :
    Step ⟨s, t, .starting⟩ ⟨s, t', .failed .fault⟩
  | unwritable {s : Store} {t : Tree} {e : Text.EncodeError} (h : s.document.unwritable? = some e) :
    Step ⟨s, t, .ready⟩ ⟨s, t, .failed (.error (.text e))⟩
  | opened {s : Store} {t : Tree} {temp : List String} (hw : s.document.unwritable? = none)
    (h : Spare s t temp) : Step ⟨s, t, .ready⟩ ⟨s, t.put temp (.file []), .writing temp []⟩
  /-- Outside the working directory the temporary file is not seen. -/
  | unseen {s : Store} {t : Tree} {e : SaveError} (hd : t.locate s.dir = .ok .outside)
    (h : s.put t = .error e) : Step ⟨s, t, .ready⟩ ⟨s, t, .failed (.error e)⟩
  | unopened {s : Store} {t : Tree} : Step ⟨s, t, .ready⟩ ⟨s, t, .failed .fault⟩
  | wrote {s : Store} {t : Tree} {temp : List String} {written more : Bytes} (hm : more ≠ [])
    (h : written ++ more <+: s.content) : Step ⟨s, t, .writing temp written⟩
      ⟨s, t.put temp (.file (written ++ more)), .writing temp (written ++ more)⟩
  | unwritten {s : Store} {t : Tree} {temp : List String} {written : Bytes} :
    Step ⟨s, t, .writing temp written⟩ ⟨s, t, .failing temp .fault⟩
  | closed {s : Store} {t : Tree} {temp : List String} :
    Step ⟨s, t, .writing temp s.content⟩ ⟨s, t, .closed temp⟩
  | replaced {s : Store} {t t' : Tree} {temp : List String} {bytes : Bytes}
    (hf : t.fileAt temp = some bytes)
    (h : (t.without temp).replace temporaryName s.path bytes = .ok t') :
    Step ⟨s, t, .closed temp⟩ ⟨s, t', .saved⟩
  | refused {s : Store} {t : Tree} {temp : List String} {bytes : Bytes} {e : FileError}
    (hf : t.fileAt temp = some bytes)
    (h : (t.without temp).replace temporaryName s.path bytes = .error e) :
    Step ⟨s, t, .closed temp⟩ ⟨s, t, .failing temp (.error (.file e))⟩
  | unreplaced {s : Store} {t : Tree} {temp : List String} :
    Step ⟨s, t, .closed temp⟩ ⟨s, t, .failing temp .fault⟩
  | removed {s : Store} {t : Tree} {temp : List String} {cause : Cause SaveError} :
    Step ⟨s, t, .failing temp cause⟩ ⟨s, t.without temp, .failed cause⟩

def Reaches : Saving → Saving → Prop := Relation.ReflTransGen Step

/-- The save has returned, or it has raised. -/
def Ended (x : Saving) : Prop := x.stage = .saved ∨ ∃ cause, x.stage = .failed cause

/-- More steps than are left. -/
def rank (x : Saving) : Nat :=
  match x.stage with
  | .starting => x.store.content.length + 5
  | .ready => x.store.content.length + 4
  | .writing _ written => x.store.content.length - written.length + 3
  | .closed _ => 2
  | .failing _ _ => 1
  | .saved | .failed _ => 0

variable {x x' : Saving}

theorem Step.rank_lt (h : Step x x') : x'.rank < x.rank := by
  cases h with
  | @wrote s t temp written more hm h =>
    have hle := h.length_le
    have hpos := List.length_pos_iff.mpr hm
    simp only [rank, List.length_append] at hle ⊢
    omega
  | opened => simp [rank]
  | closed => simp [rank]
  | _ => simp only [rank]; omega

theorem step_wellFounded : WellFounded fun x' x : Saving => Step x x' :=
  Subrelation.wf (fun h => h.rank_lt) (measure rank).wf

end Saving

theorem Spare.room (h : Spare s t temp) : t.HasRoom temp := by
  obtain ⟨dir, inner, letters, hl, rfl⟩ := h.beside
  exact ⟨dir, _, rfl, inner, (Workspace.locate_sound hl).1⟩

theorem Spare.put (h : Spare s base temp) (written : Bytes) :
    (base.put temp (.file written)).fileAt temp = some written ∧
      (base.put temp (.file written)).without temp = base :=
  ⟨Workspace.fileAt_of_file (Workspace.childAt_put h.room _), Workspace.without_put h.room h.free _⟩

theorem paved_of_makeDirs (hm : t.makeDirs s.dir = (.ok (), base)) : Tree.Paved s.dir t base :=
  Workspace.makeDirs_paved hm

theorem put_eq_replace (hw : s.document.unwritable? = none) (t : Tree) :
    s.put t = (t.replace temporaryName s.path s.content).mapError .file := by
  simp only [Store.put, hw, content]

theorem save_of_put_error {e : SaveError} (hm : t.makeDirs s.dir = (.ok (), base))
    (hp : s.put base = .error e) : s.save t = (.error e, base) := by
  simp only [save, hm, hp]

theorem save_of_put_ok (hm : t.makeDirs s.dir = (.ok (), base)) (hp : s.put base = .ok t') :
    ∃ notes, s.save t = (.ok notes, t') := by
  simp only [save, hm, hp]
  exact ⟨_, rfl⟩

namespace Saving

variable {x x' : Saving}

/-- What is so at each stage of a save: behind the directories the tree is as it was, but for a temporary
file. -/
inductive Sound (s : Store) (t : Tree) : Saving → Prop where
  | starting : Sound s t ⟨s, t, .starting⟩
  | ready {base : Tree} (hm : t.makeDirs s.dir = (.ok (), base)) : Sound s t ⟨s, base, .ready⟩
  | writing {base : Tree} {temp : List String} {written : Bytes}
    (hm : t.makeDirs s.dir = (.ok (), base)) (hw : s.document.unwritable? = none)
    (hs : Spare s base temp) :
    Sound s t ⟨s, base.put temp (.file written), .writing temp written⟩
  | closed {base : Tree} {temp : List String} (hm : t.makeDirs s.dir = (.ok (), base))
    (hw : s.document.unwritable? = none) (hs : Spare s base temp) :
    Sound s t ⟨s, base.put temp (.file s.content), .closed temp⟩
  | failing {base : Tree} {temp : List String} {written : Bytes} {cause : Cause SaveError}
    (hm : t.makeDirs s.dir = (.ok (), base)) (hs : Spare s base temp)
    (he : ∀ e, cause = .error e → s.save t = (.error e, base)) :
    Sound s t ⟨s, base.put temp (.file written), .failing temp cause⟩
  | saved {t' : Tree} (h : ∃ notes, s.save t = (.ok notes, t')) : Sound s t ⟨s, t', .saved⟩
  | failed {t' : Tree} {cause : Cause SaveError} (hp : Tree.Paved s.dir t t')
    (he : ∀ e, cause = .error e → s.save t = (.error e, t')) : Sound s t ⟨s, t', .failed cause⟩

theorem Step.sound (h : Step x x') (hx : Sound s t x) : Sound s t x' := by
  cases h with
  | made h =>
    cases hx
    exact .ready h
  | @unmade _ _ _ e h =>
    cases hx
    refine .failed (Workspace.makeDirs_paved h) fun e' he => ?_
    cases he
    simp only [save, h]
  -- A fault of the surroundings is no error of the save, so it owes nothing to one.
  | halfMade h =>
    cases hx
    exact .failed h fun e he => Cause.fault_ne_error he
  | unwritable h =>
    cases hx with
    | ready hm =>
      refine .failed (paved_of_makeDirs hm) fun e he => ?_
      cases he
      exact save_of_put_error hm (by simp only [Store.put, h])
  | opened hw hs =>
    cases hx with
    | ready hm => exact .writing hm hw hs
  | unseen hd h =>
    cases hx with
    | ready hm =>
      refine .failed (paved_of_makeDirs hm) fun e he => ?_
      cases he
      exact save_of_put_error hm h
  | unopened =>
    cases hx with
    | ready hm => exact .failed (paved_of_makeDirs hm) fun e he => Cause.fault_ne_error he
  | wrote hm h =>
    cases hx with
    | writing hmade hw hs =>
      rw [Workspace.put_put hs.room]
      exact .writing hmade hw hs
  | unwritten =>
    cases hx with
    | writing hm hw hs => exact .failing hm hs fun e he => Cause.fault_ne_error he
  | closed =>
    cases hx with
    | writing hm hw hs => exact .closed hm hw hs
  | replaced hf h =>
    cases hx with
    | closed hm hw hs =>
      obtain ⟨hfile, hwithout⟩ := hs.put s.content
      cases hfile.symm.trans hf
      rw [hwithout] at h
      exact .saved (save_of_put_ok hm (by rw [put_eq_replace hw, h]; rfl))
  | refused hf h =>
    cases hx with
    | closed hm hw hs =>
      obtain ⟨hfile, hwithout⟩ := hs.put s.content
      cases hfile.symm.trans hf
      rw [hwithout] at h
      refine .failing hm hs fun e he => ?_
      cases he
      exact save_of_put_error hm (by rw [put_eq_replace hw, h]; rfl)
  | unreplaced =>
    cases hx with
    | closed hm hw hs => exact .failing hm hs fun e he => Cause.fault_ne_error he
  | removed =>
    cases hx with
    | failing hm hs he =>
      rw [(hs.put _).2]
      exact .failed (paved_of_makeDirs hm) he

theorem Reaches.sound (h : Reaches ⟨s, t, .starting⟩ x) : Sound s t x := by
  induction h with
  | refl => exact .starting
  | tail _ hs ih => exact hs.sound ih

theorem Sound.progress (h : Sound s t x) : x.Ended ∨ ∃ x', Step x x' := by
  cases h with
  | starting => exact .inr ⟨_, .halfMade .refl⟩
  | ready => exact .inr ⟨_, .unopened⟩
  | writing => exact .inr ⟨_, .unwritten⟩
  | closed => exact .inr ⟨_, .unreplaced⟩
  | failing => exact .inr ⟨_, .removed⟩
  | saved => exact .inl (.inl rfl)
  | failed => exact .inl (.inr ⟨_, rfl⟩)

end Saving

/-! ### Without faults -/

/-- There are more names than a directory holds. -/
theorem exists_spareName (children : List (String × Workspace.Entry)) :
    ∃ letters, children.lookup (spareName letters) = none := by
  let lengths := children.map fun c => c.1.length
  refine ⟨String.ofList (List.replicate lengths.sum 'x'), List.lookup_eq_none_iff.mpr ?_⟩
  rintro ⟨name, e⟩ hmem
  have hle : name.length ≤ lengths.sum := List.le_sum_of_mem (List.mem_map_of_mem hmem)
  rw [bne_iff_ne]
  rintro rfl
  simp only [spareName, String.length_append, String.length_ofList, List.length_replicate] at hle
  have hfront : ".cache-".length = 7 := rfl
  omega

theorem exists_spare {dir : List String} {inner : List (String × Workspace.Entry)}
    (h : t.locate s.dir = .ok (.found dir (.dir inner))) : ∃ temp, Spare s t temp := by
  obtain ⟨letters, hfree⟩ := exists_spareName inner
  refine ⟨dir ++ [spareName letters], ⟨dir, inner, letters, h, rfl⟩, ?_⟩
  rw [Workspace.childAt_append _ (Workspace.locate_sound h).1]
  exact hfree

namespace Saving

theorem reaches_closed (hw : s.document.unwritable? = none) (hs : Spare s base temp) :
    Reaches ⟨s, base, .ready⟩ ⟨s, base.put temp (.file s.content), .closed temp⟩ := by
  have hopened : Reaches ⟨s, base, .ready⟩ ⟨s, base.put temp (.file []), .writing temp []⟩ :=
    .single (.opened hw hs)
  by_cases hempty : s.content = []
  · have hclosed : Step ⟨s, base.put temp (.file []), .writing temp s.content⟩ _ := .closed
    rw [hempty] at hclosed ⊢
    exact hopened.tail hclosed
  · have hwhole := List.nil_append s.content
    have hwrote : Step ⟨s, base.put temp (.file []), .writing temp []⟩
        ⟨s, _, .writing temp ([] ++ s.content)⟩ := .wrote hempty (hwhole.symm ▸ List.prefix_rfl)
    rw [hwhole, Workspace.put_put hs.room] at hwrote
    exact (hopened.tail hwrote).tail .closed

theorem reaches_put (hd : base.isDir s.dir = .ok true) :
    match s.put base with
    | .ok t' => Reaches ⟨s, base, .ready⟩ ⟨s, t', .saved⟩
    | .error e => Reaches ⟨s, base, .ready⟩ ⟨s, base, .failed (.error e)⟩ := by
  cases hw : s.document.unwritable? with
  | some e =>
    have hput : s.put base = .error (.text e) := by simp only [Store.put, hw]
    rw [hput]
    exact .single (.unwritable hw)
  | none =>
    have hreplace := put_eq_replace hw base
    rcases Workspace.locate_of_isDir hd with houtside | ⟨dir, inner, hdir⟩
    · have hname : fileName ≠ ".." := by decide
      obtain ⟨e, he⟩ := Workspace.replace_of_outside temporaryName hname houtside s.content
      have hput : s.put base = .error (.file e) := by
        rw [hreplace, path, he]
        rfl
      rw [hput]
      exact .single (.unseen houtside hput)
    · obtain ⟨temp, hs⟩ := exists_spare hdir
      obtain ⟨hfile, hwithout⟩ := hs.put s.content
      have hclosed := reaches_closed hw hs
      cases hr : base.replace temporaryName s.path s.content with
      | ok t' =>
        rw [hreplace, hr]
        refine hclosed.tail (.replaced hfile ?_)
        rw [hwithout, hr]
      | error e =>
        have hrefused : Step ⟨s, base.put temp (.file s.content), .closed temp⟩
            ⟨s, base.put temp (.file s.content), .failing temp (.error (.file e))⟩ :=
          .refused hfile (by rw [hwithout, hr])
        have hremoved : Step ⟨s, base.put temp (.file s.content), .failing temp (.error (.file e))⟩
            ⟨s, (base.put temp (.file s.content)).without temp, .failed (.error (.file e))⟩ := .removed
        rw [hwithout] at hremoved
        rw [hreplace, hr]
        exact (hclosed.tail hrefused).tail hremoved

/-- Without faults a save ends as it is said to. -/
theorem reaches_save (s : Store) (t : Tree) :
    Reaches ⟨s, t, .starting⟩ ⟨s, (s.save t).2, .ofResult (s.save t).1⟩ := by
  cases hm : t.makeDirs s.dir with
  | mk r base =>
    cases r with
    | error e =>
      simp only [save, hm]
      exact .single (.unmade hm)
    | ok u =>
      have hput := reaches_put (Workspace.makeDirs_isDir hm)
      cases hp : s.put base with
      | error e =>
        rw [hp] at hput
        simp only [save, hm, hp]
        exact .head (.made hm) hput
      | ok t' =>
        rw [hp] at hput
        simp only [save, hm, hp]
        exact .head (.made hm) hput

end Saving

/-! ### What is left behind -/

/-- Every file is as it was, and can be read as before. -/
structure Intact (t t' : Tree) : Prop where
  files : t'.files = t.files
  places : ∀ names, t'.fileAt names = t.fileAt names
  reads : ∀ p content, t.read p = .ok content → t'.read p = .ok content

theorem Intact.of_paved {p : Workspace.Path} (h : Tree.Paved p t t') : Intact t t' :=
  ⟨Workspace.Paved.files h, Workspace.Paved.fileAt h, fun _ _ hread => Workspace.Paved.read h hread⟩

/-- The place to which the path leads holds all that is written of the document, and every other file
is as it was. -/
structure Complete (s : Store) (t t' : Tree) : Prop where
  returned : ∃ notes, s.save t = (.ok notes, t')
  placed : ∃ paved place, SavedTo s t t' paved place ∧ t'.fileAt place = some s.content ∧
    ∀ names, names ≠ place → t'.fileAt names = t.fileAt names
  /-- The path leads to the content, unless a link that was replaced is on the way. -/
  read : (∀ names target, (t.makeDirs s.dir).2.locateLink s.path ≠ .ok (.found names (.link target))) →
    t'.read s.path = .ok s.content
  decoded : s.document.Lasting → decode s.content = .ok (.ok s.document.readBack)
  exact : s.document.Lasting →
    (s.document.readBack = s.document ↔ s.document.PlainKeys)

namespace SavedTo

variable {paved : Tree} {place : List String}

theorem isPaved (h : SavedTo s t t' paved place) : Tree.Paved s.dir t paved := paved_of_makeDirs h.made

theorem room (h : SavedTo s t t' paved place) : paved.HasRoom place ∧
    ∀ inner, childAt paved.children place ≠ some (.dir inner) := by
  rcases h.leads with hfree | ⟨e, hfound, hdir⟩
  · obtain ⟨hnone, hroom⟩ := Workspace.locateLink_sound hfree
    exact ⟨hroom, by simp [hnone]⟩
  · obtain ⟨hthere, ⟨inner, rfl⟩ | hroom⟩ := Workspace.locateLink_sound hfound
    · cases hdir
    · refine ⟨hroom, fun inner hinner => ?_⟩
      cases hthere.symm.trans hinner
      cases hdir

theorem others (h : SavedTo s t t' paved place) {names : List String} (hne : names ≠ place) :
    t'.fileAt names = t.fileAt names := by
  rw [h.result, Workspace.put_fileAt_ne h.room.1 h.room.2 hne, Workspace.Paved.fileAt h.isPaved]

theorem leadsTo (h : SavedTo s t t' paved place)
    (hlink : ∀ names target, paved.locateLink s.path ≠ .ok (.found names (.link target))) :
    LeadsTo place (paved.locateLink s.path) := by
  rcases h.leads with hfree | ⟨e, hfound, hdir⟩
  · exact .inl hfree
  · cases e with
    | file bs => exact .inr ⟨bs, hfound⟩
    | link target => exact absurd hfound (hlink place target)
    | dir inner => cases hdir

end SavedTo

theorem Complete.of_save (h : s.save t = (.ok notes, t')) : Complete s t t' := by
  obtain ⟨paved, place, hsaved⟩ := save_ok h
  refine ⟨⟨notes, h⟩, ⟨paved, place, hsaved, ?_, fun names => hsaved.others⟩, fun hlink => ?_,
    fun hl => decode_encode hl hsaved.writable, fun hl => Document.readBack_eq_self_iff hl⟩
  · rw [hsaved.result]
    exact Workspace.fileAt_of_file (Workspace.childAt_put hsaved.room.1 _)
  · rw [hsaved.made] at hlink
    have hholds : s.Holds t' s.content := by
      rw [Holds, hsaved.result]
      exact Workspace.standing_put (hsaved.leadsTo hlink)
    exact hholds.read (save_noNul h)

/-- What comes of a save. -/
structure Saving.Atomic (s : Store) (t : Tree) (x : Saving) : Prop where
  store : x.store = s
  progress : x.Ended ∨ ∃ x', Step x x'
  saved : x.stage = .saved → Complete s t x.tree
  failed : ∀ cause, x.stage = .failed cause → Intact t x.tree
  error : ∀ e, x.stage = .failed (.error e) → s.save t = (.error e, x.tree)

theorem Saving.Reaches.atomic {x : Saving} (h : Reaches ⟨s, t, .starting⟩ x) : Atomic s t x := by
  have hsound := h.sound
  have hprogress := hsound.progress
  cases hsound with
  | saved hsave =>
    obtain ⟨notes, hsave⟩ := hsave
    exact ⟨rfl, hprogress, fun _ => .of_save hsave, nofun, nofun⟩
  | failed hp he =>
    refine ⟨rfl, hprogress, nofun, fun _ _ => .of_paved hp, fun e hstage => ?_⟩
    cases hstage
    exact he e rfl
  | _ => exact ⟨rfl, hprogress, nofun, nofun, nofun⟩

/-! ### A clearing -/

inductive ClearStage where
  | starting
  | removed
  | cleared
  | failed (cause : Cause FileError)

structure Clearing where
  store : Store
  tree : Tree
  stage : ClearStage

namespace Clearing

/-- The file is taken away, and then the document is forgotten. -/
inductive Step : Clearing → Clearing → Prop where
  | removed {s : Store} {t t' : Tree} (h : t.remove s.path true = .ok t') :
    Step ⟨s, t, .starting⟩ ⟨s, t', .removed⟩
  | refused {s : Store} {t : Tree} {e : FileError} (h : t.remove s.path true = .error e) :
    Step ⟨s, t, .starting⟩ ⟨s, t, .failed (.error e)⟩
  | unremoved {s : Store} {t : Tree} : Step ⟨s, t, .starting⟩ ⟨s, t, .failed .fault⟩
  | forgot {s : Store} {t : Tree} :
    Step ⟨s, t, .removed⟩ ⟨{ s with document := {} }, t, .cleared⟩

def Reaches : Clearing → Clearing → Prop := Relation.ReflTransGen Step

inductive Sound (s : Store) (t : Tree) : Clearing → Prop where
  | starting : Sound s t ⟨s, t, .starting⟩
  | removed {t' : Tree} (h : t.remove s.path true = .ok t') : Sound s t ⟨s, t', .removed⟩
  | cleared {s' : Store} {t' : Tree} (h : s.clear t = .ok (s', t')) : Sound s t ⟨s', t', .cleared⟩
  | failed {cause : Cause FileError} : Sound s t ⟨s, t, .failed cause⟩

variable {x x' : Clearing}

theorem Step.sound (h : Step x x') (hx : Sound s t x) : Sound s t x' := by
  cases h with
  | removed h =>
    cases hx
    exact .removed h
  | refused | unremoved =>
    cases hx
    exact .failed
  | forgot =>
    cases hx with
    | removed h => exact .cleared (by rw [clear, h]; rfl)

theorem Reaches.sound (h : Reaches ⟨s, t, .starting⟩ x) : Sound s t x := by
  induction h with
  | refl => exact .starting
  | tail _ hs ih => exact hs.sound ih

theorem reaches_clear (s : Store) (t : Tree) :
    match s.clear t with
    | .ok (s', t') => Reaches ⟨s, t, .starting⟩ ⟨s', t', .cleared⟩
    | .error e => Reaches ⟨s, t, .starting⟩ ⟨s, t, .failed (.error e)⟩ := by
  rw [clear]
  cases h : t.remove s.path true with
  | ok t' => exact .tail (.single (.removed h)) .forgot
  | error e => exact .single (.refused h)

end Clearing

/-- Wherever a save is stopped, every file is as it was and no temporary file is left; if it is not
stopped, the whole document is in its place. In no case is the document in memory another. A clearing
that is stopped leaves both the file and the document. Without faults both end as they are said to. -/
theorem save_clear_atomic (s : Store) (t : Tree) :
    WellFounded (fun x' x : Saving => Saving.Step x x') ∧
      (∀ x, Saving.Reaches ⟨s, t, .starting⟩ x → x.Atomic s t) ∧
      Saving.Reaches ⟨s, t, .starting⟩ ⟨s, (s.save t).2, .ofResult (s.save t).1⟩ ∧
      (∀ x, Clearing.Reaches ⟨s, t, .starting⟩ x →
        (∀ cause, x.stage = .failed cause → x.store = s ∧ x.tree = t) ∧
        (x.stage = .cleared → s.clear t = .ok (x.store, x.tree))) ∧
      match s.clear t with
      | .ok (s', t') => Clearing.Reaches ⟨s, t, .starting⟩ ⟨s', t', .cleared⟩
      | .error e => Clearing.Reaches ⟨s, t, .starting⟩ ⟨s, t, .failed (.error e)⟩ := by
  refine ⟨Saving.step_wellFounded, fun x hx => hx.atomic, Saving.reaches_save s t, fun x hx => ?_,
    Clearing.reaches_clear s t⟩
  cases hx.sound with
  | cleared h => exact ⟨nofun, fun _ => h⟩
  | failed => exact ⟨fun _ _ => ⟨rfl, rfl⟩, nofun⟩
  | _ => exact ⟨nofun, nofun⟩

end Store

namespace Sample

open Store (Complete Intact Saving Spare spareName)

def temporary : List String := [".ai-lint", spareName "x"]

theorem spare_temporary (d : Document) : Spare (store d) paved temporary := by
  have hdir : paved.locate (store d).dir = .ok (.found [".ai-lint"] (.dir [])) := by
    have hshort : ¬Workspace.isTooLong (store d).dir = true := store_dir_short
    rw [Tree.locate, if_neg hshort]
    simp only [store, paved, segments?_relative]
    simp [Tree.follow, dirName_short, childAt]
    rfl
  exact ⟨⟨[".ai-lint"], [], "x", hdir, rfl⟩, by decide⟩

/-- The system fails when the written file is to take its place: only the directory is new. When it does
not fail the cache is saved. -/
theorem save_clear_atomic_interrupted : ∃ x, Saving.Reaches ⟨store (stored "a.py"), bare, .starting⟩ x ∧
    x.stage = .failed .fault ∧ x.tree = paved ∧ Intact bare x.tree ∧ x.store = store (stored "a.py") ∧
    Complete (store (stored "a.py")) bare (kept (stored "a.py")) := by
  have hw : (stored "a.py").unwritable? = none :=
    Document.unwritable?_eq_none_iff.mpr (stored_plainTexts "a.py")
  have hs := spare_temporary (stored "a.py")
  obtain ⟨_, hatomic, hsave, _⟩ := Store.save_clear_atomic (store (stored "a.py")) bare
  have hclosed : Saving.Reaches ⟨store (stored "a.py"), bare, .starting⟩ _ :=
    .head (.made makeDirs_bare) (Saving.reaches_closed hw hs)
  have hremoved := (hclosed.tail .unreplaced).tail .removed
  rw [(hs.put _).2] at hremoved
  obtain ⟨notes, hkept⟩ := save_bare hw
  rw [hkept] at hsave
  exact ⟨_, hremoved, rfl, rfl, (hatomic _ hremoved).failed _ rfl, rfl, (hatomic _ hsave).saved rfl⟩

def otherKey : String := String.singleton (Text.charOfCode 0xD801)

def twins : Document := (stored loneKey).store "no_print" otherKey "h" "p" found moment

theorem twins_lasting : twins.Lasting :=
  (lasting_empty.store found_short moment_isStamp).store found_short moment_isStamp

/-- Of two entries whose keys differ only in a surrogate that stands alone, one is written. -/
theorem twins_merged : ∃ notes notes' d,
    (store twins).save bare = (.ok notes, kept twins) ∧
    (store {}).load (kept twins) = .ok (store d, notes') ∧
    twins.entries.length = 2 ∧ d.entries.length = 1 ∧
    twins.lookup "no_print" otherKey "h" "p" = some found ∧ d.lookup "no_print" otherKey "h" "p" = none := by
  have hw : twins.unwritable? = none := by decide
  obtain ⟨notes, hsave⟩ := save_bare hw
  obtain ⟨notes', hload, _⟩ := load_cached (decode_encode twins_lasting hw)
  exact ⟨notes, notes', twins.readBack, hsave, hload, by decide, by decide, by decide, by decide⟩

end Sample

end JudgedLint.Cache
