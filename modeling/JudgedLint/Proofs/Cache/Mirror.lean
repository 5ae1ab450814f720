import JudgedLint.Proofs.Cache.Roundtrip
import Mathlib.Data.Finmap

/-! The cache as two finite maps: what is in memory for a pair of rule and file, and what is on disk.
A document mirrors a map if its entries are those of the map, under the keys of the pairs; each call
keeps memory and file in step with their maps and answers as they say. -/
namespace JudgedLint.Cache

open Calendar (Moment)
open Lint (Result isRuleId)
open Text (isWellFormed utf8Encode)
open Workspace (Path Tree)

/-! ### The maps -/

/-- The last result for a pair, with the fingerprints of what was judged. -/
structure Kept where
  fileHash : String
  promptHash : String
  result : Result
  deriving DecidableEq

def Kept.texts (k : Kept) : List String :=
  [k.fileHash, k.promptHash, k.result.ruleId, k.result.ruleName, k.result.file, k.result.message]

def Kept.Plain (k : Kept) : Prop := ∀ text ∈ k.texts, isWellFormed text = true

instance : DecidablePred Kept.Plain := fun k => inferInstanceAs (Decidable (∀ text ∈ k.texts, _))

/-- What is kept for pairs of a rule id and a file path. -/
abbrev Memory := Finmap fun _ : String × String => Kept

structure Reference where
  memory : Memory := ∅
  disk : Option Memory := none

/-! ### Calls -/

inductive Call where
  | store (ruleId file fileHash promptHash : String) (result : Result) (timestamp : Moment)
  | lookup (ruleId file fileHash promptHash : String)
  | save
  | load
  | clear
  | status

inductive Answer where
  | done
  | found (result : Option Result)
  | counted (entries : Nat)
  | unwritable
  /-- The file was not read, or not as a cache. -/
  | warned
  | refused
  deriving DecidableEq

namespace Call

def reference (m : Reference) : Call → Answer × Reference
  | store ruleId file fileHash promptHash result _ =>
    (.done, { m with memory := m.memory.insert (ruleId, file) ⟨fileHash, promptHash, result⟩ })
  | lookup ruleId file fileHash promptHash =>
    (.found ((m.memory.lookup (ruleId, file)).bind fun k =>
      if k.fileHash = fileHash ∧ k.promptHash = promptHash then some k.result else none), m)
  | save =>
    if ∀ p ∈ m.memory.entries, p.2.Plain then (.done, { m with disk := some m.memory })
    else (.unwritable, m)
  | load => (.done, { m with memory := m.disk.getD ∅ })
  | clear => (.done, {})
  | status => (.counted m.memory.keys.card, m)

/-- The answer of a store, and what the call makes of it and of the files. -/
def run (s : Store) (t : Tree) : Call → Answer × Store × Tree
  | store ruleId file fileHash promptHash result timestamp =>
    (.done, { s with
      document := s.document.store ruleId file fileHash promptHash result timestamp }, t)
  | lookup ruleId file fileHash promptHash =>
    (.found (s.document.lookup ruleId file fileHash promptHash), s, t)
  | save =>
    match s.save t with
    | (.ok _, t') => (.done, s, t')
    | (.error (.text _), t') => (.unwritable, s, t')
    | (.error (.file _), t') => (.refused, s, t')
  | load =>
    match s.load t with
    | .ok (s', notes) => (if notes.any (·.level == .warning) then .warned else .done, s', t)
    | .error _ => (.refused, s, t)
  | clear =>
    match s.clear t with
    | .ok (s', t') => (.done, s', t')
    | .error _ => (.refused, s, t)
  | status =>
    match s.status t with
    | .ok (entries, _) => (.counted entries, s, t)
    | .error _ => (.refused, s, t)

/-- The system refuses what the call asks of it. -/
def Refused (s : Store) (t : Tree) : Call → Prop
  | store .. => False
  | lookup .. => False
  | save => ∃ e, (s.save t).1 = .error (.file e)
  | load => ∃ e, t.read s.path = .error e ∧ e.refusal ≠ .noEntry
  | clear => ∃ e, s.clear t = .error e
  | status => ∃ e, s.status t = .error e

/-- The rule id is one that rules take. What is stored is stored for a path in which no surrogate
stands alone, with numbers that can be read back and a time of the calendar. -/
def Proper : Call → Prop
  | store ruleId file _ _ result timestamp =>
    isRuleId ruleId = true ∧ isWellFormed file = true ∧ result.Short ∧ timestamp.IsStamp
  | lookup ruleId .. => isRuleId ruleId = true
  | _ => True

end Call

def Reference.answers (m : Reference) : List Call → List Answer
  | [] => []
  | c :: rest => (c.reference m).1 :: Reference.answers (c.reference m).2 rest

def Store.answers (s : Store) (t : Tree) : List Call → List Answer
  | [] => []
  | c :: rest => (c.run s t).1 :: Store.answers (c.run s t).2.1 (c.run s t).2.2 rest

def Undisturbed (s : Store) (t : Tree) : List Call → Prop
  | [] => True
  | c :: rest => ¬c.Refused s t ∧ Undisturbed (c.run s t).2.1 (c.run s t).2.2 rest

/-! ### Documents and maps -/

def Entry.kept (e : Entry) : Kept := ⟨e.fileHash, e.promptHash, e.result⟩

/-- The entries of a document are those of a map, under the keys of the pairs. -/
structure Document.Mirrors (d : Document) (m : Memory) : Prop where
  lasting : d.Lasting
  kept : ∀ e ∈ d.entries, ∃ p : String × String, isRuleId p.1 = true ∧ isWellFormed p.2 = true ∧
    e.1 = key p.1 p.2 ∧ e.2.ruleId = p.1 ∧ m.lookup p = some e.2.kept
  listed : ∀ p k, m.lookup p = some k → isRuleId p.1 = true ∧
    ∃ e, (key p.1 p.2, e) ∈ d.entries ∧ e.kept = k

theorem isIdChar_lt {c : Char} (h : Lint.isIdChar c = true) : c.toNat < 128 := by
  have hz : 'z'.toNat = 122 := rfl
  simp only [Lint.isIdChar, Lint.isLower, Bool.or_eq_true, Bool.and_eq_true, decide_eq_true_eq] at h
  rcases h with (⟨_, hlower⟩ | hdigit) | hline
  · have hle : c.toNat ≤ 'z'.toNat := hlower
    omega
  · have hle := (Char.isDigit_iff_toNat.mp hdigit).2
    have h9 : '9'.toNat = 57 := rfl
    omega
  · rw [beq_iff_eq.mp hline]
    decide

theorem isWellFormed_of_isRuleId {id : String} (h : isRuleId id = true) : isWellFormed id = true := by
  exact IsAscii.isWellFormed fun c hc => isIdChar_lt (isIdChar_of_isRuleId h c hc)

section

variable {d : Document} {m : Memory} {id file fileHash promptHash : String}

theorem mirrors_empty : Document.Mirrors {} ∅ where
  lasting := lasting_empty
  kept := by simp
  listed := by
    intro p k h
    rw [Finmap.lookup_empty] at h
    cases h

theorem Document.Mirrors.plainKeys (h : d.Mirrors m) : d.PlainKeys := by
  intro e he
  obtain ⟨p, hid, hfile, hkey, _, _⟩ := h.kept e he
  rw [hkey]
  exact isWellFormed_key (isWellFormed_of_isRuleId hid) hfile

theorem Document.Mirrors.find (h : d.Mirrors m) (hid : isRuleId id = true) (file : String) :
    (d.entries.lookup (key id file)).map Entry.kept = m.lookup (id, file) := by
  cases hm : m.lookup (id, file) with
  | some k =>
    obtain ⟨_, e, he, hkept⟩ := h.listed _ k hm
    rw [Json.lookup_of_mem h.lasting.distinct he, Option.map_some, hkept]
  | none =>
    cases hd : d.entries.lookup (key id file) with
    | none => rfl
    | some e =>
      obtain ⟨p, hid', _, hkey, _, hp⟩ := h.kept _ (Json.mem_of_lookup hd)
      obtain ⟨rfl, rfl⟩ := key_injective hid hid' hkey
      cases hp.symm.trans hm

theorem Document.Mirrors.lookup (h : d.Mirrors m) (hid : isRuleId id = true) :
    d.lookup id file fileHash promptHash = (m.lookup (id, file)).bind fun k =>
      if k.fileHash = fileHash ∧ k.promptHash = promptHash then some k.result else none := by
  rw [← h.find hid, Document.lookup]
  cases d.entries.lookup (key id file) with
  | none => rfl
  | some e => simp [Entry.kept]

/-- The keys tell the pairs apart, so there is an entry for each. -/
theorem Document.Mirrors.card (h : d.Mirrors m) : d.entries.length = m.keys.card := by
  have hinj : Set.InjOn (fun p : String × String => key p.1 p.2) m.keys := by
    intro p hp p' hp' heq
    obtain ⟨k, hk⟩ := Finmap.mem_iff.mp (Finmap.mem_keys.mp hp)
    obtain ⟨k', hk'⟩ := Finmap.mem_iff.mp (Finmap.mem_keys.mp hp')
    obtain ⟨hid, hfile⟩ := key_injective (h.listed p k hk).1 (h.listed p' k' hk').1 heq
    exact Prod.ext hid hfile
  have hkeys : m.keys.image (fun p => key p.1 p.2) = (d.entries.map (·.1)).toFinset := by
    ext k
    simp only [Finset.mem_image, List.mem_toFinset, List.mem_map]
    constructor
    · rintro ⟨p, hp, rfl⟩
      obtain ⟨kept, hk⟩ := Finmap.mem_iff.mp (Finmap.mem_keys.mp hp)
      obtain ⟨_, e, he, _⟩ := h.listed p kept hk
      exact ⟨_, he, rfl⟩
    · rintro ⟨e, he, rfl⟩
      obtain ⟨p, _, _, hkey, _, hp⟩ := h.kept e he
      exact ⟨p, Finmap.mem_keys.mpr (Finmap.mem_of_lookup_eq_some hp), hkey.symm⟩
  rw [← Finset.card_image_of_injOn hinj, hkeys, List.toFinset_card_of_nodup h.lasting.distinct,
    List.length_map]

theorem Document.Mirrors.plainTexts_iff (h : d.Mirrors m) :
    d.PlainTexts ↔ ∀ p ∈ m.entries, p.2.Plain := by
  constructor
  · rintro hd ⟨p, k⟩ hp text htext
    obtain ⟨_, e, he, rfl⟩ := h.listed p k (Finmap.mem_lookup_iff.mpr hp)
    refine hd _ he text ?_
    simp only [Kept.texts, Entry.kept, List.mem_cons, List.not_mem_nil, or_false] at htext
    simp only [Entry.texts, List.mem_cons, List.not_mem_nil, or_false]
    tauto
  · intro hm e he text htext
    obtain ⟨p, hid, _, _, hrule, hp⟩ := h.kept e he
    have hplain : e.2.kept.Plain := hm ⟨p, _⟩ (Finmap.mem_lookup_iff.mp hp)
    -- the rule id of an entry is not kept beside the pair, but it is one that rules take
    by_cases hown : text = e.2.ruleId
    · rw [hown, hrule]
      exact isWellFormed_of_isRuleId hid
    · refine hplain text ?_
      simp only [Kept.texts, Entry.kept, List.mem_cons, List.not_mem_nil, or_false]
      simp only [Entry.texts, List.mem_cons, List.not_mem_nil, or_false] at htext
      tauto

/-- A stored result takes the place of what its pair had, in the document as in the map. -/
theorem Document.Mirrors.store {r : Result} {timestamp : Moment} (h : d.Mirrors m)
    (hid : isRuleId id = true) (hfile : isWellFormed file = true) (hr : r.Short)
    (ht : timestamp.IsStamp) : (d.store id file fileHash promptHash r timestamp).Mirrors
      (m.insert (id, file) ⟨fileHash, promptHash, r⟩) := by
  have hlasting : (d.store id file fileHash promptHash r timestamp).Lasting := h.lasting.store hr ht
  constructor
  · exact hlasting
  · rintro ⟨k, e⟩ he
    have hlookup : (d.store id file fileHash promptHash r timestamp).entries.lookup k = some e :=
      Json.lookup_of_mem hlasting.distinct he
    rw [Document.store] at hlookup
    rcases eq_or_ne k (key id file) with rfl | hne
    · rw [Json.lookup_put_self] at hlookup
      cases hlookup
      exact ⟨(id, file), hid, hfile, rfl, rfl, Finmap.lookup_insert m⟩
    · rw [Json.lookup_put_ne hne] at hlookup
      obtain ⟨p, hid', hfile', hkey, hrule, hp⟩ := h.kept _ (Json.mem_of_lookup hlookup)
      have hpair : p ≠ (id, file) := by
        rintro rfl
        exact hne hkey
      exact ⟨p, hid', hfile', hkey, hrule, (Finmap.lookup_insert_of_ne m hpair).trans hp⟩
  · intro p k hp
    rcases eq_or_ne p (id, file) with rfl | hpair
    · rw [Finmap.lookup_insert] at hp
      cases hp
      exact ⟨hid, _, Json.mem_of_lookup (Json.lookup_put_self _ _ _), rfl⟩
    · rw [Finmap.lookup_insert_of_ne m hpair] at hp
      obtain ⟨hid', e, he, hkept⟩ := h.listed p k hp
      have hne : key p.1 p.2 ≠ key id file := by
        intro heq
        obtain ⟨h1, h2⟩ := key_injective hid' hid heq
        exact hpair (Prod.ext h1 h2)
      refine ⟨hid', e, Json.mem_of_lookup (k := key p.1 p.2) ?_, hkept⟩
      rw [Document.store, Json.lookup_put_ne hne]
      exact Json.lookup_of_mem h.lasting.distinct he

end

/-! ### Calls in step -/

namespace Store

/-- The cache file is what a map says: missing, or a document that mirrors the map. -/
def Backs (s : Store) (t : Tree) : Option Memory → Prop
  | none => s.Absent t
  | some m => ∃ d : Document, s.Holds t (utf8Encode (encode d)) ∧ d.Mirrors m ∧ d.PlainTexts

/-- Memory and file are what the maps say. The paths are absolute. -/
structure Matches (s : Store) (t : Tree) (m : Reference) : Prop where
  root : (Path.ofText t.root).lead ≠ ""
  memory : s.document.Mirrors m.memory
  disk : s.Backs t m.disk

variable {s : Store} {t : Tree} {m : Reference} {disk : Option Memory}

theorem Backs.regular (h : s.Backs t disk) : s.Regular t := by
  cases disk with
  | none => exact .inl h
  | some m =>
    obtain ⟨d, hholds, _⟩ := h
    exact .inr ⟨_, hholds⟩

theorem Backs.of_dir {s' : Store} (h : s.Backs t disk) (hdir : s.dir = s'.dir) : s'.Backs t disk := by
  cases disk with
  | none => exact Absent.of_dir h hdir
  | some m =>
    obtain ⟨d, hholds, hd⟩ := h
    exact ⟨d, hholds.of_dir hdir, hd⟩

theorem Backs.save_error {t' : Tree} {e : SaveError} (h : s.Backs t disk)
    (hsave : s.save t = (.error e, t')) : s.Backs t' disk := by
  cases disk with
  | none => exact Absent.save_error h hsave
  | some m =>
    obtain ⟨d, hholds, hd⟩ := h
    exact ⟨d, hholds.save_error hsave, hd⟩

/-- A call and the reference model give one answer, and stay in step. -/
def Agrees (s : Store) (t : Tree) (m : Reference) (c : Call) : Prop :=
  (c.run s t).1 = (c.reference m).1 ∧
    Matches (c.run s t).2.1 (c.run s t).2.2 (c.reference m).2

theorem Matches.agrees_save (h : Matches s t m) (hr : ¬Call.Refused s t .save) :
    Agrees s t m .save := by
  have htexts := h.memory.plainTexts_iff
  simp only [Agrees, Call.run, Call.reference]
  generalize hsave : s.save t = saved
  obtain ⟨result, t'⟩ := saved
  cases result with
  | ok notes =>
    obtain ⟨paved, place, hsaved⟩ := save_ok hsave
    have hplain : s.document.PlainTexts := Document.unwritable?_eq_none_iff.mp hsaved.writable
    rw [if_pos (htexts.mp hplain)]
    refine ⟨rfl, ?_, h.memory, _, h.disk.regular.save_ok hsave, h.memory, hplain⟩
    rw [save_root hsave]
    exact h.root
  | error e =>
    cases e with
    | file e => exact absurd ⟨e, by rw [hsave]⟩ hr
    | text e =>
      have hnot : ¬s.document.PlainTexts := by
        intro hplain
        have hnone := Document.unwritable?_eq_none_iff.mpr hplain
        rw [save_text_error hsave] at hnone
        cases hnone
      rw [if_neg fun hm => hnot (htexts.mpr hm)]
      refine ⟨rfl, ?_, h.memory, h.disk.save_error hsave⟩
      rw [Store.save_error hsave, Workspace.Paved.root (makeDirs_paved s t)]
      exact h.root

theorem Quiet.any_eq_false {notes : List Log.Record} (h : Quiet notes) :
    notes.any (·.level == .warning) = false := by
  rw [List.any_eq_false]
  intro r hr hlevel
  exact h r hr (beq_iff_eq.mp hlevel)

theorem Matches.agrees_load (h : Matches s t m) (hr : ¬Call.Refused s t .load) :
    Agrees s t m .load := by
  -- nothing is refused, so a file that is not read is missing
  have hread : ∀ e, t.read s.path = .error e → e.refusal = .noEntry := by
    intro e he
    by_contra hne
    exact hr ⟨e, he, hne⟩
  simp only [Agrees, Call.run, Call.reference]
  have hdisk := h.disk
  cases hm : m.disk with
  | none =>
    rw [hm] at hdisk
    obtain ⟨e, he⟩ := Workspace.read_of_standing_none hdisk.standing
    have hload : s.load t = .ok ({ s with document := {} }, []) := by
      simp only [Store.load, he, hread e he]
      rfl
    rw [hload]
    exact ⟨rfl, h.root, mirrors_empty, (Backs.of_dir hdisk rfl : Backs _ t none)⟩
  | some kept =>
    rw [hm] at hdisk
    obtain ⟨d, hholds, hmirrors, hplain⟩ := hdisk
    have hcontent : t.read s.path = .ok (utf8Encode (encode d)) := by
      rcases hholds.read_cases with hok | hnul
      · exact hok
      · cases hread _ hnul
    have hw : d.unwritable? = none := Document.unwritable?_eq_none_iff.mpr hplain
    have hdecode := decode_encode hmirrors.lasting hw
    rw [(Document.readBack_eq_self_iff hmirrors.lasting).mpr hmirrors.plainKeys] at hdecode
    obtain ⟨notes, hload, hquiet⟩ := load_of_read hcontent hdecode
    rw [hload]
    simp only [hquiet.any_eq_false]
    exact ⟨rfl, h.root, hmirrors,
      (Backs.of_dir ⟨d, hholds, hmirrors, hplain⟩ rfl : Backs _ t (some kept))⟩

theorem Matches.agrees_clear (h : Matches s t m) (hr : ¬Call.Refused s t .clear) :
    Agrees s t m .clear := by
  simp only [Agrees, Call.run, Call.reference]
  cases hclear : s.clear t with
  | error e => exact absurd ⟨e, hclear⟩ hr
  | ok cleared =>
    obtain ⟨s', t'⟩ := cleared
    obtain ⟨rfl, hremove⟩ := clear_eq_ok hclear
    have hdisk := h.disk
    -- with the file gone no later call makes one come to stand there but a save
    have hafter : s.Absent t' ∧ t'.root = t.root := by
      cases hm : m.disk with
      | none =>
        rw [hm] at hdisk
        obtain rfl := Absent.remove hdisk hremove
        exact ⟨hdisk, rfl⟩
      | some kept =>
        rw [hm] at hdisk
        obtain ⟨d, hholds, _⟩ := hdisk
        exact hholds.remove h.root hremove
    refine ⟨rfl, ?_, mirrors_empty, hafter.1.of_dir rfl⟩
    rw [hafter.2]
    exact h.root

theorem status_eq_ok {n size : Nat} (h : s.status t = .ok (n, size)) :
    n = s.document.entries.length := by
  rw [Store.status] at h
  split at h
  · cases h
    rfl
  · split at h
    · cases h
      rfl
    · cases h

theorem Matches.agrees_status (h : Matches s t m) (hr : ¬Call.Refused s t .status) :
    Agrees s t m .status := by
  simp only [Agrees, Call.run, Call.reference]
  cases hstatus : s.status t with
  | error e => exact absurd ⟨e, hstatus⟩ hr
  | ok counted =>
    obtain ⟨n, size⟩ := counted
    rw [status_eq_ok hstatus, h.memory.card]
    exact ⟨rfl, h⟩

theorem Matches.agrees {c : Call} (h : Matches s t m) (hc : c.Proper) (hr : ¬c.Refused s t) :
    Agrees s t m c := by
  cases c with
  | store ruleId file fileHash promptHash result timestamp =>
    obtain ⟨hid, hfile, hshort, hstamp⟩ := hc
    exact ⟨rfl, h.root, h.memory.store hid hfile hshort hstamp, h.disk.of_dir rfl⟩
  | lookup ruleId file fileHash promptHash => exact ⟨congrArg Answer.found (h.memory.lookup hc), h⟩
  | save => exact h.agrees_save hr
  | load => exact h.agrees_load hr
  | clear => exact h.agrees_clear hr
  | status => exact h.agrees_status hr

theorem Matches.answers {calls : List Call} (h : Matches s t m) (hc : ∀ c ∈ calls, c.Proper)
    (hr : Undisturbed s t calls) : s.answers t calls = m.answers calls := by
  induction calls generalizing s t m with
  | nil => rfl
  | cons c rest ih =>
    obtain ⟨hnot, hrest⟩ := hr
    obtain ⟨hanswer, hmatches⟩ := h.agrees (hc c List.mem_cons_self) hnot
    rw [Store.answers, Reference.answers, hanswer,
      ih hmatches (fun c' hc' => hc c' (List.mem_cons_of_mem _ hc')) hrest]

/-- A new store answers as two maps of pairs do, if the system refuses nothing. What is stored for one
pair is not looked up for another. -/
theorem refines_maps {calls : List Call} (hroot : (Path.ofText t.root).lead ≠ "")
    (hempty : s.document = {}) (hdisk : s.Backs t disk) (hc : ∀ c ∈ calls, c.Proper)
    (hr : Undisturbed s t calls) :
    s.answers t calls = Reference.answers { disk } calls ∧
    ∀ (d : Document) (id file fileHash promptHash : String) (r : Result) (timestamp : Moment)
      (id' file' fileHash' promptHash' : String), isRuleId id = true → isRuleId id' = true →
      (id', file') ≠ (id, file) →
      (d.store id file fileHash promptHash r timestamp).lookup id' file' fileHash' promptHash' =
        d.lookup id' file' fileHash' promptHash' := by
  constructor
  · have hmatches : Matches s t { disk } := by
      refine ⟨hroot, ?_, hdisk⟩
      rw [hempty]
      exact mirrors_empty
    exact hmatches.answers hc hr
  · intro d id file fileHash promptHash r timestamp id' file' fileHash' promptHash' hid hid' hne
    have hkey : key id' file' ≠ key id file := by
      intro heq
      obtain ⟨rfl, rfl⟩ := key_injective hid' hid heq
      exact hne rfl
    rw [Document.lookup, Document.store, Json.lookup_put_ne hkey, Document.lookup]

end Store

namespace Sample

open Store (Backs decode)

def calls (file : String) : List Call :=
  [.store "no_print" file "h" "p" found moment, .save, .load, .lookup "no_print" file "h" "p"]

theorem stored_lasting (file : String) : (stored file).Lasting :=
  lasting_empty.store found_short moment_isStamp

theorem run_save (file : String) :
    Call.run (store (stored file)) bare .save = (.done, store (stored file), kept (stored file)) := by
  obtain ⟨notes, hsave⟩ := save_bare (Document.unwritable?_eq_none_iff.mpr (stored_plainTexts file))
  simp only [Call.run, hsave]

theorem run_load (file : String) : Call.run (store (stored file)) (kept (stored file)) .load =
    (.done, store (stored file).readBack, kept (stored file)) := by
  have hw := Document.unwritable?_eq_none_iff.mpr (stored_plainTexts file)
  obtain ⟨notes, hload, hquiet⟩ := load_cached (decode_encode (stored_lasting file) hw)
  have hdir : (store {}).dir = (store (stored file)).dir := rfl
  rw [Store.load_of_dir hdir] at hload
  simp only [Call.run, kept, hload, hquiet.any_eq_false]
  rfl

theorem run_store (file : String) :
    Call.run (store {}) bare (.store "no_print" file "h" "p" found moment) =
      (.done, store (stored file), bare) := rfl

theorem calls_undisturbed (file : String) : Undisturbed (store {}) bare (calls file) := by
  simp only [calls, Undisturbed, run_store, run_save, run_load]
  refine ⟨id, ?_, ?_, id, trivial⟩
  · rintro ⟨e, he⟩
    obtain ⟨notes, hsave⟩ := save_bare (Document.unwritable?_eq_none_iff.mpr (stored_plainTexts file))
    rw [hsave] at he
    cases he
  · rintro ⟨e, he, _⟩
    have hread : (kept (stored file)).read (store (stored file)).path = .ok _ :=
      (holds_cached _).read noNul
    rw [hread] at he
    cases he

theorem answers_calls (file : String) : (store {}).answers bare (calls file) =
    [.done, .done, .done, .found ((stored file).readBack.lookup "no_print" file "h" "p")] := by
  simp only [calls, Store.answers, run_store, run_save, run_load]
  rfl

theorem reference_calls (file : String) :
    Reference.answers {} (calls file) = [.done, .done, .done, .found (some found)] := by
  have hentries : (Finmap.insert ("no_print", file) ⟨"h", "p", found⟩ (∅ : Memory)).entries =
      {⟨("no_print", file), ⟨"h", "p", found⟩⟩} :=
    Finmap.entries_insert_of_notMem Finmap.notMem_empty
  have hplain : (⟨"h", "p", found⟩ : Kept).Plain := by decide
  simp only [calls, Reference.answers, Call.reference, hentries, Multiset.mem_singleton, forall_eq,
    hplain, if_true, Option.getD_some, Finmap.lookup_insert]
  rfl

/-- Without a cache file a result is found again in the file. -/
theorem refines_maps_single : (∀ c ∈ calls "a.py", c.Proper) ∧
    Undisturbed (store {}) bare (calls "a.py") ∧
    (store {}).answers bare (calls "a.py") = [.done, .done, .done, .found (some found)] := by
  have hproper : ∀ c ∈ calls "a.py", c.Proper := by
    simp only [calls, List.forall_mem_cons, List.not_mem_nil, false_implies, implies_true, and_true,
      Call.Proper, true_and]
    exact ⟨⟨by decide, by decide, found_short, moment_isStamp⟩, by decide⟩
  have habsent : Backs (store {}) bare none := absent
  obtain ⟨hanswers, _⟩ :=
    Store.refines_maps root_lead rfl habsent hproper (calls_undisturbed "a.py")
  exact ⟨hproper, calls_undisturbed "a.py", hanswers.trans (reference_calls "a.py")⟩

def unwritable : Document := ({} : Document).store "no_print" "a.py" loneKey "p" found moment

theorem unwritable_isSome : unwritable.unwritable?.isSome = true := by decide

/-- What is stored for a path in which a surrogate stands alone is lost in the file. With such a
surrogate in a fingerprint nothing is saved. -/
theorem lone_path_lost : Undisturbed (store {}) bare (calls loneKey) ∧
    (store {}).answers bare (calls loneKey) = [.done, .done, .done, .found none] ∧
    Reference.answers {} (calls loneKey) = [.done, .done, .done, .found (some found)] ∧
    (store {}).answers bare [.store "no_print" "a.py" loneKey "p" found moment, .save] =
      [.done, .unwritable] := by
  have hkey : isWellFormed (key "no_print" loneKey) = false := by decide
  have hnone : (stored loneKey).readBack.lookup "no_print" loneKey "h" "p" = none := by
    rw [Document.lookup, Document.readBack_lookup_eq_none hkey]
  refine ⟨calls_undisturbed loneKey, ?_, reference_calls loneKey, ?_⟩
  · rw [answers_calls, hnone]
  · obtain ⟨e, he⟩ := Option.isSome_iff_exists.mp unwritable_isSome
    have hstored : Call.run (store {}) bare (.store "no_print" "a.py" loneKey "p" found moment) =
      (.done, store unwritable, bare) := rfl
    have hsave : Call.run (store unwritable) bare .save = (.unwritable, store unwritable, paved) := by
      simp only [Call.run, save_bare_unwritable he]
    simp only [Store.answers, hstored, hsave]

end Sample

end JudgedLint.Cache
