import JudgedLint.Cache.Store
import JudgedLint.Digest
import JudgedLint.Proofs.Cache.Stamp
import JudgedLint.Proofs.Lint.Result
import JudgedLint.Proofs.Text.Utf8
import Mathlib.Data.List.TakeDrop
import Mathlib.Data.List.TakeWhile

/-! Documents on their way through a file. Whatever was loaded or stored is read back once it is
written, except that a surrogate that stands alone in a key has been replaced; one that stands alone
elsewhere keeps the document from being written. -/
namespace JudgedLint.Cache

open Calendar (Moment)
open Json (Distinct IsShort Writable)
open Lint (Result)
open Text (isWellFormed isStandIn replaceSurrogates)

/-- An entry with a short result and a time of the calendar. -/
structure Entry.Lasting (e : Entry) : Prop where
  result : e.result.Short
  timestamp : e.timestamp.IsStamp

/-- A document as it is loaded or filled. -/
structure Document.Lasting (d : Document) : Prop where
  distinct : Distinct d.entries
  entries : ∀ e ∈ d.entries, e.2.Lasting

/-- What is read where a document is written. -/
def Document.readBack (d : Document) : Document :=
  ⟨Json.members (d.entries.map fun e => (replaceSurrogates e.1, e.2))⟩

/-! ### Texts -/

theorem surrogates?_eq_none_iff {s : String} : Text.surrogates? s = none ↔ isWellFormed s = true := by
  simp only [Text.surrogates?, List.span_eq_takeWhile_dropWhile, Option.map_eq_none_iff,
    List.head?_eq_none_iff, List.dropWhile_eq_nil_iff, isWellFormed, Bool.not_eq_true',
    List.any_eq_false, Bool.not_eq_true]

theorem isWellFormed_replaceSurrogates (s : String) : isWellFormed (replaceSurrogates s) = true := by
  simp only [isWellFormed, replaceSurrogates, String.toList_ofList, Bool.not_eq_true',
    List.any_eq_false, List.mem_flatMap]
  rintro c ⟨c', _, hc⟩
  split at hc
  · rw [List.eq_of_mem_replicate hc]
    decide
  · next hplain =>
    rw [List.mem_singleton.mp hc]
    exact hplain

theorem replaceSurrogates_of_isWellFormed {s : String} (h : isWellFormed s = true) :
    replaceSurrogates s = s := by
  simp only [isWellFormed, Bool.not_eq_true', List.any_eq_false] at h
  have hlist : (s.toList.flatMap fun c => if isStandIn c then List.replicate 3 '\uFFFD' else [c]) =
      s.toList := by
    rw [List.flatMap_congr fun c hc => if_neg (h c hc), List.flatMap_singleton']
  rw [replaceSurrogates, hlist, String.ofList_toList]

def IsAscii (s : String) : Prop := ∀ c ∈ s.toList, c.toNat < 128

theorem IsAscii.isWellFormed {s : String} (h : IsAscii s) : isWellFormed s = true := by
  simp only [Text.isWellFormed, Bool.not_eq_true', List.any_eq_false]
  intro c hc hstand
  have hlow := h c hc
  have hhigh : 0x100000 ≤ c.toNat := of_decide_eq_true (Bool.and_eq_true_iff.mp hstand).1
  omega

theorem isAscii_append {s t : String} : IsAscii (s ++ t) ↔ IsAscii s ∧ IsAscii t := by
  simp only [IsAscii, String.toList_append, List.forall_mem_append]

theorem isAscii_padded (width n : Nat) : IsAscii (Decimal.padded width n) := by
  intro c hc
  have hlist : (Decimal.padded width n).toList =
      List.replicate (width - (Nat.toDigits 10 n).length) '0' ++ Nat.toDigits 10 n := by
    simp [Decimal.padded, Nat.repr_eq_ofList_toDigits]
  have hdigit : c.isDigit = true := by
    rw [hlist] at hc
    rcases List.mem_append.mp hc with hc | hc
    · rw [List.eq_of_mem_replicate hc]
      rfl
    · exact List.all_eq_true.mp (Text.all_isDigit_toDigits n) c hc
  have hle := (Char.isDigit_iff_toNat.mp hdigit).2
  have h9 : '9'.toNat = 57 := rfl
  omega

theorem isAscii_offsetText (offset : Int) : IsAscii (Calendar.offsetText offset) := by
  have hsign : IsAscii (if offset < 0 then "-" else "+") := by
    split <;> simp [IsAscii]
  simp only [Calendar.offsetText]
  split <;> simp [ToString.toString, isAscii_append, isAscii_padded, hsign] <;> simp [IsAscii]

theorem isAscii_stampText (m : Moment) : IsAscii m.stampText := by
  have hdate : IsAscii m.date.text := by
    simp [Calendar.Date.text, ToString.toString, isAscii_append, isAscii_padded]
    simp [IsAscii]
  have htime : IsAscii m.timeText := by
    simp only [Moment.timeText]
    split <;> simp [ToString.toString, isAscii_append, isAscii_padded] <;> simp [IsAscii]
  have hzone : IsAscii (zoneText m.offset) := by
    cases m.offset with
    | none => simp [zoneText, IsAscii]
    | some o =>
      rw [zoneText]
      split
      · simp [IsAscii]
      · exact isAscii_offsetText o
  have htext : m.stampText = m.date.text ++ "T" ++ m.timeText ++ zoneText m.offset := rfl
  rw [htext]
  simp only [isAscii_append]
  exact ⟨⟨⟨hdate, by simp [IsAscii]⟩, htime⟩, hzone⟩

theorem isAscii_hexChars (width n : Nat) : ∀ c ∈ Text.hexChars width n, c.toNat < 128 := by
  induction width generalizing n with
  | zero => simp [Text.hexChars]
  | succ width ih =>
    have hdigits : ∀ k < 16, (Text.hexDigit k).toNat < 128 := by decide
    intro c hc
    rcases List.mem_append.mp hc with hc | hc
    · exact ih _ c hc
    · rw [List.mem_singleton.mp hc]
      exact hdigits _ (Nat.mod_lt _ (by decide))

theorem isAscii_digest (text : String) : IsAscii (Digest.ofText text) := by
  intro c hc
  rw [Digest.ofText, Text.hexOfBytes, String.toList_ofList, List.mem_flatMap] at hc
  obtain ⟨b, _, hc⟩ := hc
  exact isAscii_hexChars 2 b.toNat c hc

theorem Document.unwritable?_eq_none_iff {d : Document} : d.unwritable? = none ↔
    ∀ e ∈ d.entries, ∀ s ∈ e.2.texts, isWellFormed s = true := by
  simp only [unwritable?, List.findSome?_eq_none_iff, List.mem_flatMap, surrogates?_eq_none_iff]
  constructor
  · intro h e he s hs
    exact h s ⟨e, he, hs⟩
  · rintro h s ⟨e, he, hs⟩
    exact h e he s hs

/-! ### Written and read -/

theorem entry_settled (e : Entry) : e.toJson.settled = e.toJson := by
  simp only [Entry.toJson, Json.settled, Json.settledMembers, Result.toJson_settled]
  congr 1

theorem document_settled (d : Document) : d.toJson.settled = .obj [("version", .int formatVersion),
    ("entries", .obj (d.readBack.entries.map fun e => (e.1, e.2.toJson)))] := by
  have hentries : Json.settledMembers
      (d.entries.map fun e => (replaceSurrogates e.1, e.2.toJson)) =
      (d.entries.map fun e => (replaceSurrogates e.1, e.2)).map fun e => (e.1, e.2.toJson) := by
    rw [Json.settledMembers_eq, List.map_map, List.map_map]
    exact List.map_congr_left fun e _ => by simp [entry_settled]
  simp only [Document.toJson, Json.settled, Json.settledMembers, hentries, Json.members_map]
  rfl

theorem entry_reader_toJson {e : Entry} (h : e.Lasting) : Entry.reader (.ofJson e.toJson) = .ok e := by
  have hstamp : stampReader (.ofJson (.str e.timestamp.stampText)) = .ok e.timestamp := by
    simp only [stampReader, Datum.ofJson, Datum.bare, momentOfString?_stampText h.timestamp]
  have hmap : ∀ ms, (Datum.ofJson (.obj ms)).isMap = true := fun _ => rfl
  simp only [Entry.reader, Entry.toJson, Form.record, hmap, if_true, Form.required, Datum.get?_ofJson]
  simp [List.lookup_cons, Result.reader_toJson, hstamp]
  rfl

theorem entriesFrom_toJson {l : List (String × Entry)} (h : ∀ e ∈ l, e.2.Lasting) :
    entriesFrom (Datum.ofMembers (l.map fun e => (e.1, e.2.toJson))) = .ok l := by
  induction l with
  | nil => rfl
  | cons e rest ih =>
    obtain ⟨k, e⟩ := e
    have he := entry_reader_toJson (h (k, e) List.mem_cons_self)
    have hrest := ih fun e he => h e (List.mem_cons_of_mem _ he)
    simp only [List.map_cons, Datum.ofMembers, entriesFrom, he, hrest]
    rfl

theorem document_reader {l : List (String × Entry)} (h : ∀ e ∈ l, e.2.Lasting) :
    Document.reader (.ofJson (.obj [("version", .int formatVersion),
      ("entries", .obj (l.map fun e => (e.1, e.2.toJson)))])) = .ok ⟨l⟩ := by
  have hmap : ∀ ms, (Datum.ofJson (.obj ms)).isMap = true := fun _ => rfl
  have hversion : versionReader (.ofJson (.int formatVersion)) = .ok () := rfl
  have hentries : entriesReader (.ofJson (.obj (l.map fun e => (e.1, e.2.toJson)))) = .ok l :=
    entriesFrom_toJson h
  simp only [Document.reader, Form.record, hmap, if_true, Form.withDefault, Datum.get?_ofJson]
  simp [List.lookup_cons, hversion, hentries]
  rfl

theorem entry_writable {e : Entry} {levels : Nat} (h : e.Lasting)
    (ht : ∀ s ∈ e.texts, isWellFormed s = true) : Writable (levels + 2) e.toJson := by
  simp only [Entry.texts, List.forall_mem_cons, List.not_mem_nil, false_implies, implies_true,
    and_true] at ht
  obtain ⟨hfile, hprompt, hid, hresult⟩ := ht
  refine .obj ?_ ?_
  · simp only [List.forall_mem_cons, List.not_mem_nil, false_implies, implies_true, and_true]
    decide
  · simp only [List.forall_mem_cons, List.not_mem_nil, false_implies, implies_true, and_true]
    exact ⟨.str hfile, .str hprompt, .str hid, Result.toJson_writable h.result (by simpa using hresult),
      .str (isAscii_stampText _).isWellFormed⟩

theorem document_writable {d : Document} (levels : Nat) (h : d.Lasting) (hw : d.unwritable? = none) :
    Writable (levels + 4) d.toJson := by
  have hentries : Writable (levels + 3)
      (.obj (d.entries.map fun e => (replaceSurrogates e.1, e.2.toJson))) := by
    refine .obj ?_ ?_
    · intro m hm
      obtain ⟨e, _, rfl⟩ := List.mem_map.mp hm
      exact isWellFormed_replaceSurrogates e.1
    · intro m hm
      obtain ⟨e, he, rfl⟩ := List.mem_map.mp hm
      exact entry_writable (h.entries e he) fun s hs => Document.unwritable?_eq_none_iff.mp hw e he _ hs
  refine .obj ?_ ?_
  · simp only [List.forall_mem_cons, List.not_mem_nil, false_implies, implies_true, and_true]
    decide
  · simp only [List.forall_mem_cons, List.not_mem_nil, false_implies, implies_true, and_true]
    exact ⟨.int (by simp only [IsShort]; decide), hentries⟩

theorem decode_encode {d : Document} (h : d.Lasting) (hw : d.unwritable? = none) :
    Store.decode (Text.utf8Encode (Store.encode d)) = .ok (.ok d.readBack) := by
  have hlasting : ∀ e ∈ d.readBack.entries, e.2.Lasting := by
    intro e he
    obtain ⟨e', he', rfl⟩ := List.mem_map.mp (Json.mem_of_mem_members he)
    exact h.entries e' he'
  rw [Store.decode, Text.utf8Decode_utf8Encode, Store.encode]
  simp only [Json.parse_render (document_writable 966 h hw), document_settled, document_reader hlasting]

/-- All that is written is read back, if no surrogate stands alone in a key. -/
theorem Document.readBack_eq_self_iff {d : Document} (h : d.Lasting) :
    d.readBack = d ↔ ∀ e ∈ d.entries, isWellFormed e.1 = true := by
  constructor
  · intro heq e he
    rw [← heq] at he
    obtain ⟨e', _, rfl⟩ := List.mem_map.mp (Json.mem_of_mem_members he)
    exact isWellFormed_replaceSurrogates e'.1
  · intro hkeys
    have hmap : (d.entries.map fun e => (replaceSurrogates e.1, e.2)) = d.entries := by
      rw [List.map_congr_left (g := id) fun e he => by
        rw [replaceSurrogates_of_isWellFormed (hkeys e he)]; rfl, List.map_id]
    rw [readBack, hmap, Json.members_of_distinct h.distinct]

end JudgedLint.Cache
