import JudgedLint.Proofs.Cache.Disk
import JudgedLint.Proofs.Cache.Document
import JudgedLint.Proofs.Cache.Entries

/-! Where lasting documents come from: a document that was loaded lasts, and so does one that short
results were stored in. -/
namespace JudgedLint

open Json (Distinct IsShort Limits)

namespace Cache

variable {j : Json}

theorem lasting_empty : Document.Lasting {} where
  distinct := List.nodup_nil
  entries := by simp

theorem entry_reader_lasting {e : Entry} (hj : j.Proper Limits.general.digits)
    (h : Entry.reader (.ofJson j) = .ok e) : e.Lasting := by
  obtain ⟨ms, rfl, hms, h⟩ := Form.record_ofJson hj h
  simp only [Form.apply_eq_ok, map_eq_ok] at h
  obtain ⟨_, timestamp, ⟨_, result, ⟨_, _, ⟨_, _, ⟨_, _, rfl⟩, _, rfl⟩, _, rfl⟩, hresult, rfl⟩, hstamp,
    rfl⟩ := h
  obtain ⟨j, hj, hresult⟩ := Form.required_ofJson hresult
  obtain ⟨j', _, hstamp⟩ := Form.required_ofJson hstamp
  exact ⟨Lint.Result.short_of_reader (hms _ hj) hresult, stampReader_isStamp hstamp⟩

theorem entriesFrom_ofMembers {ms : List (String × Json)} {l : List (String × Entry)}
    (h : entriesFrom (Datum.ofMembers ms) = .ok l) :
    l.map (·.1) = ms.map (·.1) ∧ ∀ e ∈ l, ∃ m ∈ ms, Entry.reader (.ofJson m.2) = .ok e.2 := by
  induction ms generalizing l with
  | nil =>
    cases h
    simp
  | cons m rest ih =>
    obtain ⟨k, j⟩ := m
    simp only [Datum.ofMembers, entriesFrom, Form.apply_eq_ok, Form.under_eq_ok, map_eq_ok] at h
    obtain ⟨_, tail, ⟨_, ⟨_, e, ⟨_, hk, rfl⟩, he, rfl⟩, rfl⟩, htail, rfl⟩ := h
    cases hk
    obtain ⟨hkeys, hentries⟩ := ih htail
    refine ⟨by rw [List.map_cons, List.map_cons, hkeys], fun e' he' => ?_⟩
    rcases List.mem_cons.mp he' with rfl | he'
    · exact ⟨_, List.mem_cons_self, he⟩
    · obtain ⟨m, hm, hread⟩ := hentries e' he'
      exact ⟨m, List.mem_cons_of_mem _ hm, hread⟩

theorem document_reader_lasting {d : Document} (hj : j.Proper Limits.general.digits)
    (h : Document.reader (.ofJson j) = .ok d) : d.Lasting := by
  obtain ⟨ms, rfl, hms, h⟩ := Form.record_ofJson hj h
  simp only [Form.apply_eq_ok, map_eq_ok] at h
  obtain ⟨_, entries, ⟨_, _, rfl⟩, hentries, rfl⟩ := h
  rcases Form.withDefault_ofJson hentries with rfl | ⟨j, hj, hentries⟩
  · exact lasting_empty
  · rw [entriesReader] at hentries
    split at hentries
    · next hmap =>
      obtain ⟨ms', rfl⟩ := Datum.isMap_ofJson hmap
      obtain ⟨hkeys, hread⟩ := entriesFrom_ofMembers hentries
      cases hms _ hj with
      | obj hd hms' =>
        refine ⟨by rw [Distinct, hkeys]; exact hd, fun e he => ?_⟩
        obtain ⟨m, hm, hread⟩ := hread e he
        exact entry_reader_lasting (hms' m hm) hread
    · cases hentries

theorem decode_lasting {bytes : List UInt8} {d : Document} (h : Store.decode bytes = .ok (.ok d)) :
    d.Lasting := by
  simp only [Store.decode] at h
  split at h
  · cases h
  · split at h
    · split at h <;> cases h
    · next j hparse =>
      split at h
      · cases h
      · next heq =>
        cases h
        exact document_reader_lasting (Json.parse_proper hparse) heq

theorem Store.load_lasting {s loaded : Store} {t : Workspace.Tree} {notes : List Log.Record}
    (h : s.load t = .ok (loaded, notes)) : loaded.document.Lasting := by
  rcases load_cases h with rfl | ⟨bytes, d, _, hd, rfl⟩
  · exact lasting_empty
  · exact decode_lasting hd

section

variable {d : Document} {id file fileHash promptHash : String} {r : Lint.Result}
  {timestamp : Calendar.Moment}

theorem Document.Lasting.store (h : d.Lasting) (hr : r.Short) (ht : timestamp.IsStamp) :
    (d.store id file fileHash promptHash r timestamp).Lasting := by
  constructor
  · exact h.distinct.put _ _
  · intro e he
    rcases Json.mem_put he with rfl | he
    · exact ⟨hr, ht⟩
    · exact h.entries e he

theorem Document.store_writable (hw : d.unwritable? = none)
    (ht : ∀ s ∈ (Entry.mk fileHash promptHash id r timestamp).texts, Text.isWellFormed s = true) :
    (d.store id file fileHash promptHash r timestamp).unwritable? = none := by
  rw [unwritable?_eq_none_iff] at hw ⊢
  intro e he
  rcases Json.mem_put he with rfl | he
  · exact ht
  · exact hw e he

end

theorem isWellFormed_key {id file : String} (hid : Text.isWellFormed id = true)
    (hfile : Text.isWellFormed file = true) : Text.isWellFormed (key id file) = true := by
  simp only [Text.isWellFormed, Bool.not_eq_true', List.any_eq_false] at hid hfile ⊢
  intro c hc
  rw [toList_key] at hc
  rcases List.mem_append.mp hc with hc | hc
  · exact hid c hc
  · rcases List.mem_cons.mp hc with rfl | hc
    · decide
    · exact hfile c hc

theorem Document.readBack_timeless (d : Document) : d.readBack.timeless.entries =
    Json.members (d.timeless.entries.map fun e => (Text.replaceSurrogates e.1, e.2)) := by
  rw [timeless, readBack, ← Json.members_map, timeless, List.map_map, List.map_map]
  rfl

theorem Document.readBack_lookup_eq_none {d : Document} {k : String}
    (hk : Text.isWellFormed k = false) :
    d.readBack.entries.lookup k = none := by
  refine Json.lookup_of_notMem fun hmem => ?_
  obtain ⟨e, he, rfl⟩ := List.mem_map.mp hmem
  obtain ⟨e', _, rfl⟩ := List.mem_map.mp (Json.mem_of_mem_members he)
  rw [isWellFormed_replaceSurrogates] at hk
  cases hk

/-- What is read of documents that grew out of one is alike, if the new keys are well-formed. -/
theorem Document.Branches.readBack_alike {new : List (String × Entry)} {d d' : Document}
    (h : Branches new d d') (hn : Distinct new) (hw : ∀ e ∈ new, Text.isWellFormed e.1 = true) :
    d.readBack.Alike d'.readBack := by
  obtain ⟨kept, added, added', hd, hd', hperm, hsub⟩ := h
  have hadded : Distinct added := hn.sublist (hsub.map _)
  have hadded' : Distinct added' := (hperm.map _).nodup_iff.mp hadded
  have hplain : ∀ l : List (String × Entry), l.Perm added →
      l.map (fun e => (Text.replaceSurrogates e.1, e.2)) = l := by
    intro l hl
    refine (List.map_congr_left fun e he => ?_).trans (List.map_id l)
    rw [replaceSurrogates_of_isWellFormed (hw e (hsub.subset (hl.subset he))), id]
  rw [Alike, readBack_timeless, readBack_timeless, hd, hd', List.map_append, List.map_append,
    hplain added (.refl _), hplain added' hperm.symm, Json.members_append, Json.members_append]
  refine Json.perm_of_lookup ?_ ?_ fun k => ?_
  · exact (Json.distinct_members _).putAll added
  · exact (Json.distinct_members _).putAll added'
  · rw [Json.lookup_putAll hadded, Json.lookup_putAll hadded', Json.lookup_of_perm hadded hperm]

/-! ### A file with a surrogate alone in a key -/

namespace Sample

def moment : Calendar.Moment := ⟨⟨2024, 1, 1⟩, 0, 0, 1, 0, some 0⟩

theorem moment_isStamp : moment.IsStamp where
  date := by decide
  time := by decide
  zone := by
    rintro o ho
    cases ho
    decide

def found : Lint.Result :=
  ⟨"no_print", "No print", "a.py", .error, false, "Prints.", none, 0, false, false⟩

def loneKey : String := String.singleton (Text.charOfCode 0xD800)

def lone : Document :=
  ⟨[(loneKey, ⟨"h", "p", "r", ⟨"r", "n", "f", .error, true, "m", none, 0, false, false⟩, .ofUnix 0 0⟩)]⟩

def loneText : String :=
  "\x7b\"entries\":\x7b\"\\ud800\":\x7b\"file_hash\":\"h\",\"prompt_hash\":\"p\",\"rule_id\":\"r\"," ++
  "\"result\":\x7b\"rule_id\":\"r\",\"rule_name\":\"n\",\"file\":\"f\",\"severity\":\"error\"," ++
  "\"pass\":true,\"message\":\"m\"\x7d,\"timestamp\":0\x7d\x7d\x7d"

theorem decode_loneText : Store.decode (Text.utf8Encode loneText) = .ok (.ok lone) := by
  rw [Store.decode, Text.utf8Decode_utf8Encode]
  decide +kernel

end Sample

end Cache

theorem Lint.Filled.lasting {stamp : Nat → Calendar.Moment} {d d' : Cache.Document}
    {judged : List (Lint.Job × Lint.Result)} (h : Filled stamp d judged d') (hd : d.Lasting)
    (hstamp : ∀ n, (stamp n).IsStamp) (hshort : ∀ q ∈ judged, q.2.Short) : d'.Lasting := by
  have hdistinct := h.distinct hd.distinct
  refine ⟨hdistinct, ?_⟩
  rintro ⟨k, e⟩ he
  have hlookup := Json.lookup_of_mem hdistinct he
  by_cases hk : k ∈ judged.map (·.1.key)
  · obtain ⟨q, hq, hkey⟩ := List.mem_map.mp hk
    obtain ⟨n, hn⟩ := h.stored q hq
    rw [hkey] at hn
    rw [hn] at hlookup
    cases hlookup
    exact ⟨hshort q hq, hstamp n⟩
  · rw [h.kept k hk] at hlookup
    exact hd.entries _ (Json.mem_of_lookup hlookup)

theorem Lint.Filled.isWellFormed_key {stamp : Nat → Calendar.Moment} {d d' : Cache.Document}
    {judged : List (Lint.Job × Lint.Result)} (h : Filled stamp d judged d')
    (hanswers : ∀ q ∈ judged, q.2.Answers q.1) (hw : d'.unwritable? = none) :
    ∀ q ∈ judged, Text.isWellFormed q.1.key = true := by
  intro q hq
  obtain ⟨n, hn⟩ := h.stored q hq
  have htext := Cache.Document.unwritable?_eq_none_iff.mp hw _ (Json.mem_of_lookup hn)
  refine Cache.isWellFormed_key (htext _ ?_) (htext _ ?_)
  · simp [Cache.Entry.texts, Lint.Job.entry]
  · simp [Cache.Entry.texts, Lint.Job.entry, (hanswers q hq).file]

end JudgedLint
