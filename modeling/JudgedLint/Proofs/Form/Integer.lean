import JudgedLint.Proofs.Form.Reader
import JudgedLint.Proofs.Json.Reading

/-! Whole numbers that readers take are not too long to be written and read again, be they numbers,
floats or numerals in a text. -/
namespace JudgedLint

open Json (IsShort Limits)

/-- A float is a number below `2 ^ 53` times a power of two of at most 971. -/
theorem Decimal.Binary.ofFloat_bounds {x : Float} {negative : Bool} {mant : Nat} {exp : Int}
    (h : Binary.ofFloat x = .finite negative mant exp) : mant < 2 ^ 53 ∧ exp ≤ 971 := by
  simp only [Binary.ofFloat] at h
  generalize x.toBits.toNat = bits at h
  have hexponent : bits / hiddenBit % 2048 < 2048 := Nat.mod_lt _ (by decide)
  have hfraction : bits % hiddenBit < hiddenBit := Nat.mod_lt _ (by decide)
  have hhidden : hiddenBit = 2 ^ 52 := rfl
  split at h
  · split at h <;> cases h
  · next hne =>
    have hne : bits / hiddenBit % 2048 ≠ 2047 := fun heq => hne (beq_iff_eq.mpr heq)
    split at h
    · cases h
      omega
    · cases h
      omega

theorem Decimal.log2_le_of_lt {m k : Nat} (h : m < 2 ^ (k + 1)) : m.log2 ≤ k := by
  by_cases hm : m = 0
  · rw [hm, Nat.log2_zero]
    exact Nat.zero_le _
  · exact Nat.le_of_lt_succ ((Nat.log2_lt hm).mpr h)

theorem Decimal.log2_mul_twoTo_le {m n k : Nat} (hm : m < 2 ^ (k + 1)) :
    (m * twoTo n).log2 ≤ k + n := by
  refine log2_le_of_lt ?_
  calc m * twoTo n < 2 ^ (k + 1) * 2 ^ n := Nat.mul_lt_mul_of_pos_right hm (Nat.two_pow_pos n)
    _ = 2 ^ (k + n + 1) := by rw [← Nat.pow_add, Nat.add_right_comm]

theorem Decimal.log2_truncate?_le {x : Float} {n : Int} (h : truncate? x = some n) :
    n.natAbs.log2 ≤ 1023 := by
  simp only [truncate?] at h
  split at h
  · next negative mant exp heq =>
    obtain ⟨hmant, hexp⟩ := Binary.ofFloat_bounds heq
    have hwhole : ((ratio mant exp).1 / (ratio mant exp).2).log2 ≤ 1023 := by
      rw [ratio]
      split
      · rw [Nat.div_one]
        exact Nat.le_trans (log2_mul_twoTo_le (k := 52) hmant) (by omega)
      · have hlt := Nat.lt_of_le_of_lt (Nat.div_le_self mant (twoTo (-exp).toNat)) hmant
        exact Nat.le_trans (log2_le_of_lt (k := 52) hlt) (by decide)
    cases h
    split
    · rwa [Int.natAbs_neg, Int.natAbs_natCast]
    · rwa [Int.natAbs_natCast]
  · cases h

theorem Decimal.truncate?_isShort {x : Float} {n : Int} (h : truncate? x = some n) : IsShort n := by
  have hlog := log2_truncate?_le h
  refine Json.isShort_of_lt_two_pow (Nat.succ_pos _) ?_ Nat.lt_log2_self
  simp only [Limits.general]
  omega

namespace Form

theorem plainInteger_isShort {cs : List Char} {n : Int} (h : plainInteger cs = .ok n) : IsShort n := by
  simp only [plainInteger] at h
  generalize signed cs = parts at h
  obtain ⟨negative, body⟩ := parts
  dsimp only at h
  generalize body.takeWhile Char.isDigit = digits at h
  by_cases hzero : (digits.head? == some '0' && decide (1 < digits.length)) = true
  · rw [if_pos hzero] at h
    cases h
  by_cases hlimit : numeralLimit < (if negative = true then 1 else 0) + digits.length
  · rw [if_neg hzero, if_pos hlimit] at h
    cases h
  by_cases hmore : digits.length < body.length
  · rw [if_neg hzero, if_neg hlimit, if_pos hmore] at h
    cases h
  rw [if_neg hzero, if_neg hlimit, if_neg hmore] at h
  cases hm : Text.decimalNumber? digits with
  | none =>
    rw [hm] at h
    cases h
  | some m =>
    rw [hm] at h
    cases h
    have hlength := Text.length_toDigits_le hm
    have hnat : (if negative = true then -(m : Int) else m).natAbs = m := by split <;> omega
    simp only [numeralLimit] at hlimit
    simp only [IsShort, hnat, Limits.general]
    omega

theorem integerOfText_isShort {s : String} {n : Int} (h : integerOfText s = .ok n) : IsShort n := by
  simp only [integerOfText] at h
  split at h
  · exact plainInteger_isShort h
  · exact plainInteger_isShort h

theorem integerOfString_isShort {s : String} {n : Int} (h : integerOfString s = .ok n) : IsShort n := by
  obtain ⟨s', _, h⟩ := bind_eq_ok.mp h
  split at h
  · next heq =>
    cases h
    exact integerOfText_isShort heq
  · cases h

theorem integerOfFloat_isShort {x : Float} {n : Int} (h : integerOfFloat x = .ok n) : IsShort n := by
  simp only [integerOfFloat] at h
  split at h
  · cases h
  · next m heq =>
    split at h
    · cases h
    · split at h
      · cases h
        exact Decimal.truncate?_isShort heq
      · cases h

theorem integer_isShort {j : Json} {n : Int} (hj : j.Proper Limits.general.digits)
    (h : integer (.ofJson j) = .ok n) : IsShort n := by
  cases hj with
  | null => cases h
  | bool b =>
    cases h
    split <;> simp only [IsShort] <;> decide
  | int hn =>
    cases h
    exact hn
  | float x => exact integerOfFloat_isShort h
  | str s => exact integerOfString_isShort h
  | arr _ => cases h
  | obj _ _ => cases h

theorem optional_integer_isShort {j : Json} {line : Option Int} (hj : j.Proper Limits.general.digits)
    (h : optional integer (.ofJson j) = .ok line) : ∀ n ∈ line, IsShort n := by
  intro n hn
  rw [optional] at h
  split at h
  · cases h
    cases hn
  · obtain ⟨m, hm, heq⟩ := map_eq_ok.mp h
    cases heq
    cases hn
    exact integer_isShort hj hm

/-- A record that is taken from JSON is an object, with members as proper as the whole. -/
theorem record_ofJson {α : Type} {digits : Nat} {name : String} {body : Datum → Checked α} {j : Json}
    {x : α} (hj : j.Proper digits) (h : record name body (.ofJson j) = .ok x) :
    ∃ ms, j = .obj ms ∧ (∀ m ∈ ms, m.2.Proper digits) ∧ body (.ofJson (.obj ms)) = .ok x := by
  obtain ⟨hmap, hbody⟩ := record_eq_ok.mp h
  obtain ⟨ms, rfl⟩ := Datum.isMap_ofJson hmap
  cases hj with
  | obj _ hms => exact ⟨ms, rfl, hms, hbody⟩

end Form
end JudgedLint
