import JudgedLint.Lint.Result
import JudgedLint.Proofs.Form.Integer
import JudgedLint.Proofs.Json.Roundtrip

/-! Results and their summaries on their way through JSON: a result whose numbers are short is read
back as it was written, and whatever is read has short numbers. -/
namespace JudgedLint.Lint

open Json (IsShort Limits Sized Writable)
open Text (isWellFormed)

namespace Result

/-- Neither the line nor the duration is too long to be read back. -/
structure Short (r : Result) : Prop where
  line : ∀ n ∈ r.line, IsShort n
  duration : IsShort r.durationMs

theorem toJson_settled (r : Result) : r.toJson.settled = r.toJson := by
  have hline : (Json.ofOption .int r.line).settled = Json.ofOption .int r.line := by
    cases r.line <;> rfl
  simp only [Result.toJson, Json.settled, Json.settledMembers, hline]
  congr 1

theorem reader_toJson (r : Result) : reader (.ofJson r.toJson) = .ok r := by
  have hseverity : Form.oneOf Lint.severities (.ofJson (.str r.severity.name)) = .ok r.severity := by
    cases r.severity <;> rfl
  have hline : Form.optional Form.integer (.ofJson (Json.ofOption .int r.line)) = .ok r.line := by
    cases r.line <;> rfl
  have hmap : ∀ ms, (Datum.ofJson (.obj ms)).isMap = true := fun _ => rfl
  simp only [Result.reader, Result.toJson, Form.record, hmap, if_true, Form.required,
    Form.requiredEither, Form.withDefault, Datum.get?_ofJson]
  simp [List.lookup_cons, hseverity, hline]
  rfl

theorem toJson_writable {r : Result} {levels : Nat} (h : r.Short)
    (ht : ∀ s ∈ [r.ruleId, r.ruleName, r.file, r.message], isWellFormed s = true) :
    Writable (levels + 1) r.toJson := by
  have hline : Writable levels (Json.ofOption .int r.line) := by
    cases hr : r.line with
    | none => exact .null
    | some n => exact .int (h.line n hr)
  have hseverity : isWellFormed r.severity.name = true := by
    cases r.severity <;> decide
  simp only [List.forall_mem_cons, List.not_mem_nil, false_implies, implies_true, and_true] at ht
  obtain ⟨hid, hname, hfile, hmessage⟩ := ht
  refine .obj ?_ ?_
  · simp only [List.forall_mem_cons, List.not_mem_nil, false_implies, implies_true, and_true]
    decide
  · simp only [List.forall_mem_cons, List.not_mem_nil, false_implies, implies_true, and_true]
    exact ⟨.str hid, .str hname, .str hfile, .str hseverity, .bool _, .str hmessage, hline,
      .int h.duration, .bool _, .bool _⟩

theorem short_of_reader {j : Json} {r : Result} (hj : j.Proper Limits.general.digits)
    (h : reader (.ofJson j) = .ok r) : r.Short := by
  obtain ⟨ms, rfl, hms, h⟩ := Form.record_ofJson hj h
  simp only [Form.apply_eq_ok, map_eq_ok] at h
  obtain ⟨_, _, ⟨_, _, ⟨_, _, ⟨_, line, ⟨_, _, ⟨_, _, ⟨_, _, ⟨_, _, ⟨_, _, ⟨_, _, rfl⟩, _, rfl⟩, _,
    rfl⟩, _, rfl⟩, _, rfl⟩, _, rfl⟩, hline, rfl⟩, hduration, rfl⟩, _, rfl⟩, _, rfl⟩ := h
  refine ⟨?_, ?_⟩
  · rcases Form.withDefault_ofJson hline with rfl | ⟨j, hj, hline⟩
    · simp
    · exact Form.optional_integer_isShort (hms _ hj) hline
  · rcases Form.withDefault_ofJson hduration with rfl | ⟨j, hj, hduration⟩
    · simp only [IsShort]
      decide
    · exact Form.integer_isShort (hms _ hj) hduration

structure Lasting (r : Result) : Prop where
  short : r.Short
  texts : ∀ s ∈ [r.ruleId, r.ruleName, r.file, r.message], isWellFormed s = true

theorem Lasting.regained {r : Result} (h : r.Lasting) : r.toJson.regained = r.toJson := by
  have hwritable : Writable 1 r.toJson := toJson_writable h.short h.texts
  exact hwritable.regained.trans (toJson_settled r)

theorem Lasting.cached {r : Result} (h : r.Lasting) (b : Bool) :
    Lasting { r with cached := b } :=
  ⟨⟨h.short.line, h.short.duration⟩, h.texts⟩

theorem itemsFrom_toJson (place : Nat) (rs : List Result) :
    Form.itemsFrom reader place (Datum.ofItems (rs.map toJson)) = .ok rs := by
  induction rs generalizing place with
  | nil => rfl
  | cons r rest ih =>
    simp only [List.map_cons, Datum.ofItems, Form.itemsFrom, reader_toJson, ih]
    rfl

end Result

namespace Summary

def numbers (s : Summary) : List Int :=
  [s.totalFiles, s.totalRulesApplied, s.passed, s.errors, s.warnings, s.cached, s.durationMs]

theorem reader_toJson (s : Summary) : reader (.ofJson s.toJson) = .ok s := by
  have hmap : ∀ ms, (Datum.ofJson (.obj ms)).isMap = true := fun _ => rfl
  simp only [Summary.reader, Summary.toJson, Form.record, hmap, if_true, Form.withDefault,
    Datum.get?_ofJson]
  simp [List.lookup_cons]
  rfl

theorem toJson_regained (s : Summary) : s.toJson.regained = s.toJson := by
  simp only [Summary.toJson, Json.regained, Json.regainedMembers]
  congr 1

theorem toJson_sized {s : Summary} {digits levels : Nat}
    (h : ∀ n ∈ s.numbers, (Nat.toDigits 10 n.natAbs).length ≤ digits) :
    Sized digits (levels + 1) s.toJson := by
  refine .obj ?_
  simp only [numbers, List.forall_mem_cons, List.not_mem_nil, false_implies, implies_true, and_true]
    at h ⊢
  obtain ⟨hfiles, hrules, hpassed, herrors, hwarnings, hcached, hduration⟩ := h
  exact ⟨.int hfiles, .int hrules, .int hpassed, .int herrors, .int hwarnings, .int hcached,
    .int hduration⟩

end Summary

end JudgedLint.Lint
