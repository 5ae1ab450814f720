import JudgedLint.Proofs.Cache.Lasting

/-! A document and its file. Whatever was loaded, and whatever results were stored since: once the
document is saved, it is loaded again as it was, and saved again as the same bytes. Only a surrogate
that stands alone in a text of an entry keeps it from being saved, and only one in a key is lost. -/
namespace JudgedLint.Cache

open Calendar (Moment)
open Lint (Result)
open Text (isWellFormed utf8Encode)
open Workspace (Tree)

/-- No surrogate stands alone in a key. -/
def Document.PlainKeys (d : Document) : Prop := ∀ e ∈ d.entries, isWellFormed e.1 = true

/-- No surrogate stands alone in the texts of the entries. -/
def Document.PlainTexts (d : Document) : Prop :=
  ∀ e ∈ d.entries, ∀ text ∈ e.2.texts, isWellFormed text = true

namespace Store

/-- A store that was loaded, and in which results were stored since. -/
inductive Grown (s₀ : Store) (t : Tree) : Store → Prop where
  | loaded {s : Store} {notes : List Log.Record} (h : s₀.load t = .ok (s, notes)) : Grown s₀ t s
  | stored {s : Store} (h : Grown s₀ t s) (ruleId file fileHash promptHash : String) {r : Result}
      {timestamp : Moment} (hr : r.Short) (ht : timestamp.IsStamp) :
      Grown s₀ t { s with document := s.document.store ruleId file fileHash promptHash r timestamp }

variable {s₀ s : Store} {t₀ t t' : Tree} {notes : List Log.Record}

theorem Grown.lasting (h : Grown s₀ t₀ s) : s.document.Lasting := by
  induction h with
  | loaded h => exact load_lasting h
  | stored _ ruleId file fileHash promptHash hr ht ih => exact ih.store hr ht

/-- How a document comes through its file. -/
structure Survives (s : Store) (t : Tree) : Prop where
  /-- If it is not saved, the system refused it, or a surrogate stands alone in a text. -/
  refused : ∀ e t', s.save t = (.error e, t') → (∃ f, e = .file f) ∨ ¬s.document.PlainTexts
  writable : ∀ notes t', s.save t = (.ok notes, t') → s.document.PlainTexts
  /-- Once it is saved, a document is loaded without warning, and it is the same just if no surrogate
  stands alone in a key. -/
  loads : ∀ notes t', s.save t = (.ok notes, t') → ∃ d notes',
    s.load t' = .ok ({ s with document := d }, notes') ∧ Quiet notes' ∧
      (d = s.document ↔ s.document.PlainKeys)
  /-- Saved again, the document is refused by the system, or the file has the same bytes. -/
  again : s.document.PlainKeys → ∀ notes t', s.save t = (.ok notes, t') → ∀ s' notes',
    s.load t' = .ok (s', notes') → ∀ result t'', s'.save t' = (result, t'') →
      (∃ f, result = .error (.file f)) ∨ ∃ content, s.Holds t' content ∧ s.Holds t'' content

theorem holds_of_save (hw : s.document.unwritable? = none) (hs : s.Regular t)
    {result : Except SaveError (List Log.Record)} (h : s.save t = (result, t')) :
    (∃ f, result = .error (.file f)) ∨ s.Holds t' (utf8Encode (encode s.document)) := by
  cases result with
  | ok notes =>
    right
    exact hs.save_ok h
  | error e =>
    left
    cases e with
    | file f => exact ⟨f, rfl⟩
    | text e =>
      rw [save_text_error h] at hw
      cases hw

/-- A loaded document in which results were stored comes through its file, where there is no link or
directory in the file's place. -/
theorem Grown.survives (h : Grown s₀ t₀ s) (hs : s.Regular t) : Survives s t := by
  have hlasting := h.lasting
  have hloads : ∀ notes t', s.save t = (.ok notes, t') → s.document.unwritable? = none ∧
      ∃ notes', s.load t' = .ok ({ s with document := s.document.readBack }, notes') ∧ Quiet notes' := by
    intro notes t' hsave
    obtain ⟨paved, place, hsaved⟩ := save_ok hsave
    have hdecode := decode_encode hlasting hsaved.writable
    exact ⟨hsaved.writable, (hs.save_ok hsave).load (save_noNul hsave) hdecode⟩
  constructor
  · intro e t' hsave
    cases e with
    | file f => exact .inl ⟨f, rfl⟩
    | text e =>
      right
      intro hplain
      have hnone := Document.unwritable?_eq_none_iff.mpr hplain
      rw [save_text_error hsave] at hnone
      cases hnone
  · intro notes t' hsave
    exact Document.unwritable?_eq_none_iff.mp (hloads notes t' hsave).1
  · intro notes t' hsave
    obtain ⟨_, notes', hload, hquiet⟩ := hloads notes t' hsave
    exact ⟨_, notes', hload, hquiet, Document.readBack_eq_self_iff hlasting⟩
  · intro hkeys notes t' hsave s' notes' hload result t'' hsave'
    obtain ⟨hw, notes'', hload', _⟩ := hloads notes t' hsave
    rw [(Document.readBack_eq_self_iff hlasting).mpr hkeys] at hload'
    cases hload'.symm.trans hload
    have hholds := hs.save_ok hsave
    rcases holds_of_save hw (.inr ⟨_, hholds⟩) hsave' with hrefused | hholds'
    · exact .inl hrefused
    · exact .inr ⟨_, hholds, hholds'⟩

end Store

namespace Sample

open Store (Grown Quiet Survives)

def stored (file : String) : Document := ({} : Document).store "no_print" file "h" "p" found moment

theorem found_short : found.Short := by
  constructor
  · intro n hn
    cases hn
  · exact Json.isShort_of_lt (k := 1) (by decide) (by decide) (by decide)

theorem stored_plainTexts (file : String) : (stored file).PlainTexts := by
  have hplain : ∀ text ∈ (Entry.mk "h" "p" "no_print" found moment).texts, isWellFormed text = true := by
    decide
  intro e he
  rw [List.mem_singleton.mp he]
  exact hplain

theorem stored_plainKeys : (stored "a.py").PlainKeys := by
  intro e he
  rw [List.mem_singleton.mp he]
  decide

/-- Without a cache file a result is stored, the cache is saved, and it is loaded again as it was. -/
theorem survives_single : ∃ s notes notes', Grown (store {}) bare s ∧ s.document.entries.length = 1 ∧
    s.save bare = (.ok notes, kept s.document) ∧
    s.load (kept s.document) = .ok (s, notes') ∧ Quiet notes' := by
  have hgrown : Grown (store {}) bare (store (stored "a.py")) :=
    .stored (.loaded load_bare) "no_print" "a.py" "h" "p" found_short moment_isStamp
  obtain ⟨notes, hsave⟩ := save_bare (Document.unwritable?_eq_none_iff.mpr (stored_plainTexts "a.py"))
  have hsurvives : Survives (store (stored "a.py")) bare := hgrown.survives (.inl (absent.of_dir rfl))
  obtain ⟨d, notes', hload, hquiet, heq⟩ := hsurvives.loads _ _ hsave
  rw [heq.mpr stored_plainKeys] at hload
  exact ⟨_, notes, notes', hgrown, rfl, hsave, hload, hquiet⟩

/-- A document that was loaded and saved is not loaded again as it was: the key in which a surrogate
stands alone has been replaced. -/
theorem lone_key_replaced : ∃ notes notes' d notes'',
    (store {}).load (cached (utf8Encode loneText)) = .ok (store lone, notes) ∧
    (store lone).save (cached (utf8Encode loneText)) = (.ok notes', kept lone) ∧
    (store {}).load (kept lone) = .ok (store d, notes'') ∧ d ≠ lone := by
  have hw : lone.unwritable? = none := by decide
  obtain ⟨notes, hload, _⟩ := load_cached decode_loneText
  obtain ⟨notes', hsave⟩ := save_cached (utf8Encode loneText) hw
  obtain ⟨notes'', hload', _⟩ := load_cached (decode_encode (decode_lasting decode_loneText) hw)
  refine ⟨notes, notes', lone.readBack, notes'', hload, hsave, hload', fun heq => ?_⟩
  have hnone := Document.readBack_lookup_eq_none (d := lone) (k := loneKey) (by decide)
  rw [heq] at hnone
  cases hnone

end Sample

end JudgedLint.Cache
