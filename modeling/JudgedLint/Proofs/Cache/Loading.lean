import JudgedLint.Proofs.Cache.Disk
import JudgedLint.Proofs.Json.Limits
import JudgedLint.Proofs.Text.Utf8
import JudgedLint.Proofs.Workspace.Files

/-! Loading whatever stands in the place of the cache file. It ends with the document that the file
holds, or with none; only a text beyond the limits of the reader keeps it from its end. -/
namespace JudgedLint

open Text (Bytes utf8Decode utf8Encode)

namespace Cache

open Workspace (FileError Tree)

namespace Store

variable {s loaded : Store} {t : Tree} {notes : List Log.Record} {bytes : Bytes}

/-- The one note of a cache that was there but could not be used. -/
def Warned (notes : List Log.Record) : Prop := ∃ note, notes = [note] ∧ note.level = .warning

theorem warned_warn (message : String) : Warned [warn message] := ⟨warn message, rfl, rfl⟩

/-- What loading gives, by what stands in the place of the file. -/
inductive Loads (s : Store) (t : Tree) : Store → List Log.Record → Prop where
  | document {bytes : Bytes} {d : Document} {notes : List Log.Record} (hread : t.read s.path = .ok bytes)
      (hdecode : decode bytes = .ok (.ok d)) (hquiet : Quiet notes) : Loads s t ⟨s.dir, d⟩ notes
  | absent {e : FileError} (hread : t.read s.path = .error e) (hnone : e.refusal = .noEntry) :
      Loads s t ⟨s.dir, {}⟩ []
  | unreadable {e : FileError} {notes : List Log.Record} (hread : t.read s.path = .error e)
      (hsome : e.refusal ≠ .noEntry) (hwarned : Warned notes) : Loads s t ⟨s.dir, {}⟩ notes
  | damaged {bytes : Bytes} {damage : Damage} {notes : List Log.Record} (hread : t.read s.path = .ok bytes)
      (hdecode : decode bytes = .ok (.error damage)) (hwarned : Warned notes) : Loads s t ⟨s.dir, {}⟩ notes

/-- The file, if there is one and it holds a text, keeps within the limits of the reader. -/
def WithinLimits (s : Store) (t : Tree) : Prop := ∀ bytes text, t.read s.path = .ok bytes →
  utf8Decode bytes = .ok text →
    Json.fits Json.Limits.general.digits (.outside 0) Json.Limits.general.depth text.toList = true

/-- What keeps loading from its end. -/
inductive Escapes (s : Store) (t : Tree) : LoadError → Prop where
  | limit {e : Json.ReadError} (hlimit : e.fault.isLimit = true) (hbeyond : ¬s.WithinLimits t) :
      Escapes s t (.json e)
  | path {e : FileError} (hnul : (s.path.parts.any fun part => part.toList.contains '\x00') = true) :
      Escapes s t (.path e)

theorem decode_cases (bytes : Bytes) : (∃ r, decode bytes = .ok r) ∨
    ∃ e text, decode bytes = .error e ∧ e.fault.isLimit = true ∧ utf8Decode bytes = .ok text ∧
      Json.fits Json.Limits.general.digits (.outside 0) Json.Limits.general.depth text.toList = false := by
  unfold decode
  split
  · exact .inl ⟨_, rfl⟩
  · next text htext =>
    split
    · next e he =>
      cases hlimit : e.fault.isLimit with
      | false =>
        rw [e.isMalformed_eq, hlimit]
        exact .inl ⟨_, rfl⟩
      | true =>
        have hbeyond : ¬Json.fits Json.Limits.general.digits (.outside 0) Json.Limits.general.depth text.toList = true := by
          intro hfits
          have hformed := Json.isMalformed_of_fits rfl hfits he
          rw [e.isMalformed_eq, hlimit] at hformed
          cases hformed
        rw [e.isMalformed_eq, hlimit]
        exact .inr ⟨e, text, rfl, hlimit, htext, Bool.eq_false_iff.mpr hbeyond⟩
    · split
      · exact .inl ⟨_, rfl⟩
      · exact .inl ⟨_, rfl⟩

theorem load_of_refused {e : FileError} (hread : t.read s.path = .error e) (hnul : e.refusal ≠ .embeddedNul) :
    ∃ loaded notes, s.load t = .ok (loaded, notes) ∧ s.Loads t loaded notes := by
  by_cases hnone : e.refusal = .noEntry
  · refine ⟨⟨s.dir, {}⟩, [], ?_, .absent hread hnone⟩
    simp only [load, hread, hnone]
    rfl
  · have hload : ∃ message, s.load t = .ok (⟨s.dir, {}⟩, [warn message]) := by
      simp only [load, hread]
      rw [if_neg (by simpa using hnone), if_neg (by simpa using hnul)]
      exact ⟨_, rfl⟩
    obtain ⟨message, hload⟩ := hload
    exact ⟨_, _, hload, .unreadable hread hnone (warned_warn message)⟩

theorem load_cases_of_refused {e : FileError} (hread : t.read s.path = .error e) :
    (∃ loaded notes, s.load t = .ok (loaded, notes) ∧ s.Loads t loaded notes) ∨
      ∃ e, s.load t = .error e ∧ s.Escapes t e := by
  by_cases hnul : e.refusal = .embeddedNul
  · right
    have hpath : (s.path.parts.any fun part => part.toList.contains '\x00') = true := by
      by_contra hno
      exact Workspace.read_refusal (Bool.eq_false_iff.mpr hno) hread hnul
    refine ⟨.path e, ?_, .path hpath⟩
    simp only [load, hread, hnul]
    rfl
  · exact .inl (load_of_refused hread hnul)

theorem load_of_damaged {damage : Damage} (hread : t.read s.path = .ok bytes)
    (hdecode : decode bytes = .ok (.error damage)) :
    ∃ loaded notes, s.load t = .ok (loaded, notes) ∧ s.Loads t loaded notes := by
  have hload : ∃ message, s.load t = .ok (⟨s.dir, {}⟩, [warn message]) := by
    simp only [load, hread, hdecode]
    exact ⟨_, rfl⟩
  obtain ⟨message, hload⟩ := hload
  exact ⟨_, _, hload, .damaged hread hdecode (warned_warn message)⟩

theorem load_cases_of_read (hread : t.read s.path = .ok bytes) :
    (∃ loaded notes, s.load t = .ok (loaded, notes) ∧ s.Loads t loaded notes) ∨
      ∃ e, s.load t = .error e ∧ s.Escapes t e := by
  rcases decode_cases bytes with ⟨r, hdecode⟩ | ⟨e, text, hdecode, hlimit, htext, hbeyond⟩
  · left
    cases r with
    | error damage => exact load_of_damaged hread hdecode
    | ok d =>
      obtain ⟨notes, hload, hquiet⟩ := load_of_read hread hdecode
      exact ⟨_, notes, hload, .document hread hdecode hquiet⟩
  · right
    refine ⟨.json e, ?_, .limit hlimit ?_⟩
    · simp only [load, hread, hdecode]
      rfl
    · intro hlimits
      cases hbeyond.symm.trans (hlimits bytes text hread htext)

/-- Loading comes to its end, whatever stands in the place of the file, and what was in memory before is
forgotten. Nothing escapes but the limits of the reader, where the file is a text beyond them, and the
refusal of a path that no file can have. -/
theorem load_ends (s : Store) (t : Tree) :
    (∃ loaded notes, s.Loads t loaded notes ∧ ∀ s' : Store, s'.dir = s.dir → s'.load t = .ok (loaded, notes)) ∨
      ∃ e, s.Escapes t e ∧ ∀ s' : Store, s'.dir = s.dir → s'.load t = .error e := by
  have hload : (∃ loaded notes, s.load t = .ok (loaded, notes) ∧ s.Loads t loaded notes) ∨
      ∃ e, s.load t = .error e ∧ s.Escapes t e := by
    cases hread : t.read s.path with
    | error e => exact load_cases_of_refused hread
    | ok bytes => exact load_cases_of_read hread
  rcases hload with ⟨loaded, notes, hload, hloads⟩ | ⟨e, hload, hescapes⟩
  · refine .inl ⟨loaded, notes, hloads, ?_⟩
    intro s' hdir
    rw [load_of_dir hdir, hload]
  · refine .inr ⟨e, hescapes, ?_⟩
    intro s' hdir
    rw [load_of_dir hdir, hload]

end Store

namespace Sample

open Store (decode)

def openList : String := "[1"

theorem decode_openList : decode (utf8Encode openList) = .ok (.error .form) := by
  simp only [decode, Text.utf8Decode_utf8Encode]
  rfl

/-- A damaged file is loaded as an empty cache with a warning, whatever document was in memory. -/
theorem load_ends_openList : ∃ notes, Store.Warned notes ∧ ∀ d,
    (store d).load (cached (utf8Encode openList)) = .ok (store {}, notes) := by
  have hread := (holds_cached (utf8Encode openList)).read noNul
  have hlimits : (store {}).WithinLimits (cached (utf8Encode openList)) := by
    intro bytes text hbytes htext
    cases hread.symm.trans hbytes
    cases (Text.utf8Decode_utf8Encode openList).symm.trans htext
    decide
  rcases Store.load_ends (store {}) (cached (utf8Encode openList)) with
    ⟨loaded, notes, hloads, hload⟩ | ⟨e, hescapes, _⟩
  · cases hloads with
    | document hbytes hdecode _ =>
      cases hread.symm.trans hbytes
      cases decode_openList.symm.trans hdecode
    | absent hrefused _ => cases hread.symm.trans hrefused
    | unreadable hrefused _ _ => cases hread.symm.trans hrefused
    | damaged _ _ hwarned => exact ⟨notes, hwarned, fun d => hload (store d) rfl⟩
  · cases hescapes with
    | limit _ hbeyond => exact absurd hlimits hbeyond
    | path hnul => cases noNul.symm.trans hnul

theorem load_of_limit {text : String} {stop : Json.Stop} (hlimit : stop.1.isLimit = true)
    (hdocument : Json.document .general text.toList = .error stop) :
    ∃ e, (store {}).load (cached (utf8Encode text)) = .error (.json e) ∧ e.fault = stop.1 := by
  have hread := (holds_cached (utf8Encode text)).read noNul
  have hparse : Json.parse .general text = .error (Json.locate text.toList stop) := by
    rw [Json.parse, hdocument]
    rfl
  have hformed : (Json.locate text.toList stop).isMalformed = false := by
    rw [Json.ReadError.isMalformed_eq]
    exact congrArg not hlimit
  refine ⟨Json.locate text.toList stop, ?_, rfl⟩
  simp only [Store.load, hread, decode, Text.utf8Decode_utf8Encode, hparse, hformed]
  rfl

/-- Deeply nested lists, and a long number, keep loading from its end. -/
theorem load_escapes :
    (∃ e, (store {}).load (cached (utf8Encode (String.ofList (List.replicate 971 '[')))) = .error (.json e) ∧
      e.fault = .nesting false) ∧
    ∃ e, (store {}).load (cached (utf8Encode (String.ofList (List.replicate 4301 '1')))) = .error (.json e) ∧
      e.fault = .longNumber 4301 := by
  constructor
  · have hdocument := Json.document_nested (l := .general) []
    rw [List.append_nil] at hdocument
    rw [← String.toList_ofList (l := List.replicate (Json.Limits.general.depth + 1) '[')] at hdocument
    exact load_of_limit rfl hdocument
  · have hdigits : ('1' :: List.replicate 4300 '1').all Char.isDigit = true := by
      rw [← List.replicate_succ, List.all_replicate]
      rfl
    have hlong : Json.Limits.general.digits < ('1' :: List.replicate 4300 '1').length := by
      rw [List.length_cons, List.length_replicate]
      decide
    have hdocument := Json.document_long rfl hdigits (by decide) hlong
    rw [List.length_cons, List.length_replicate, ← List.replicate_succ] at hdocument
    rw [← String.toList_ofList (l := List.replicate (4300 + 1) '1')] at hdocument
    exact load_of_limit rfl hdocument

end Sample
end Cache
end JudgedLint
