import JudgedLint.Datum
import JudgedLint.Form.Reader
import JudgedLint.Proofs.Except

/-! Entries of mappings. Setting the entry of one name is seen under this name and under no other,
and a text that counts as true is not empty. -/
namespace JudgedLint

theorem Text.ne_empty_of_utf8Decode {bs : Text.Bytes} {s : String} (h : Text.utf8Decode bs = .ok s)
    (hbs : bs ≠ []) : s ≠ "" := by
  obtain ⟨cs, hcs, rfl⟩ := map_eq_ok.mp h
  cases bs with
  | nil => exact absurd rfl hbs
  | cons b rest =>
    rw [Text.decodeFrom] at hcs
    split at hcs
    · obtain ⟨cs', _, rfl⟩ := map_eq_ok.mp hcs
      simp
    · cases hcs

namespace Datum

variable {name other : String}

theorem sameKey_str {k : Datum} {s : String} : sameKey k (.str s) = true ↔ k.bare = .str s := by
  cases hk : k.bare with
  | float x =>
    cases hwhole : Decimal.isWhole x <;> cases htruncated : Decimal.truncate? x <;>
      simp [sameKey, numeric?, bare, hk, hwhole, htruncated]
  | _ => simp [sameKey, numeric?, bare, hk]

theorem get?_cons (e : Datum × Datum) (rest : List (Datum × Datum)) (name : String) :
    (map (e :: rest)).get? name =
      if sameKey e.1 (.str name) then some e.2 else (map rest).get? name := by
  simp only [get?, Datum.entries, bare, List.find?_cons]
  cases sameKey e.1 (.str name) <;> rfl

theorem get?_insert_self (name : String) (value : Datum) (entries : List (Datum × Datum)) :
    (map (insert (.str name) value entries)).get? name = some value := by
  have hself : sameKey (.str name) (.str name) = true := sameKey_str.mpr rfl
  induction entries with
  | nil => rw [insert, get?_cons, if_pos hself]
  | cons e rest ih =>
    unfold insert
    split
    · next hsame => rw [get?_cons, if_pos hsame]
    · next hsame => rw [get?_cons, if_neg hsame, ih]

theorem get?_insert_of_ne (h : other ≠ name) (value : Datum) (entries : List (Datum × Datum)) :
    (map (insert (.str other) value entries)).get? name = (map entries).get? name := by
  have hdiffers {k : Datum} (hk : k.bare = .str other) : ¬sameKey k (.str name) = true := by
    intro hsame
    rw [sameKey_str.mp hsame] at hk
    cases hk
    exact h rfl
  induction entries with
  | nil => rw [insert, get?_cons, if_neg (hdiffers rfl)]
  | cons e rest ih =>
    unfold insert
    split
    · next hsame =>
      have hneg := hdiffers (sameKey_str.mp hsame)
      rw [get?_cons, get?_cons, if_neg hneg, if_neg hneg]
    · rw [get?_cons, get?_cons, ih]

theorem isTruthy_of_str? {d : Datum} {s : String} (h : d.str? = some s) :
    d.isTruthy = !s.isEmpty := by
  have hbare : d.bare = .str s := by
    unfold str? at h
    split at h
    · next hd =>
      cases h
      exact hd
    · cases h
  cases d with
  | back label isMap => cases isMap <;> simp [bare] at hbare
  | _ => simp [isTruthy, hbare]

theorem ne_empty_of_isTruthy {d : Datum} {s : String} (htruthy : d.isTruthy = true)
    (h : Form.text d = .ok s) : s ≠ "" := by
  have hbare : (∃ t, d.bare = .str t ∧ t = s) ∨ ∃ bs, d.bare = .bytes bs ∧ Text.utf8Decode bs = .ok s := by
    unfold Form.text at h
    split at h
    · next t hd =>
      cases h
      exact .inl ⟨s, hd, rfl⟩
    · next bs hd =>
      split at h
      · next t hdecode =>
        cases h
        exact .inr ⟨bs, hd, hdecode⟩
      · cases h
    · cases h
  cases d with
  | back label isMap => cases isMap <;> simp [bare] at hbare
  | _ =>
    rcases hbare with ⟨t, hd, rfl⟩ | ⟨bs, hd, hdecode⟩
    · simpa [isTruthy, hd] using htruthy
    · exact Text.ne_empty_of_utf8Decode hdecode (by simpa [isTruthy, hd] using htruthy)

end Datum
end JudgedLint
