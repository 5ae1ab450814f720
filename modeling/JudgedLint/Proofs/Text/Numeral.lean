import JudgedLint.Text.Hex
import Mathlib.Algebra.Ring.Nat

/-! Decimal numerals: what a row of digits reads as, and that the digits of a number read as it. -/
namespace JudgedLint.Text

variable {cs : List Char} {n : Nat}

theorem foldl_digits (cs : List Char) (acc : Nat) :
    cs.foldl (fun acc c => do return (← acc) * 10 + (← decimalDigit? c)) (some acc) =
      if cs.all Char.isDigit then some (Nat.ofDigitChars 10 cs acc) else none := by
  induction cs generalizing acc with
  | nil => simp
  | cons c rest ih =>
    rw [List.foldl_cons, List.all_cons, Nat.ofDigitChars_cons]
    cases hc : c.isDigit with
    | true =>
      have hdigit : decimalDigit? c = some (c.toNat - '0'.toNat) := if_pos hc
      rw [hdigit, Bool.true_and, ← ih, Nat.mul_comm 10 acc]
      rfl
    | false =>
      have hdigit : decimalDigit? c = none := if_neg (by simp [hc])
      rw [hdigit, Bool.false_and]
      clear ih
      induction rest with
      | nil => rfl
      | cons c' rest ih => exact ih

/-- Digits read as the number they write, and nothing else reads as a number. -/
theorem decimalNumber?_eq_some : decimalNumber? cs = some n ↔
    cs ≠ [] ∧ cs.all Char.isDigit = true ∧ Nat.ofDigitChars 10 cs 0 = n := by
  cases cs with
  | nil => simp [decimalNumber?, numeral?]
  | cons c rest =>
    have hfold := foldl_digits (c :: rest) 0
    rw [decimalNumber?, numeral?, hfold]
    · split
      · next h => simp [h]
      · next h => simp [h]
    · exact List.cons_ne_nil c rest

theorem ofDigitChars_lt (h : cs.all Char.isDigit = true) (acc : Nat) :
    Nat.ofDigitChars 10 cs acc < (acc + 1) * 10 ^ cs.length := by
  induction cs generalizing acc with
  | nil => simp
  | cons c rest ih =>
    obtain ⟨hc, hrest⟩ := Bool.and_eq_true_iff.mp h
    have hdigit : c.toNat - '0'.toNat ≤ 9 := by
      have hbounds := Char.isDigit_iff_toNat.mp hc
      have h0 : '0'.toNat = 48 := rfl
      have h9 : '9'.toNat = 57 := rfl
      omega
    calc Nat.ofDigitChars 10 (c :: rest) acc
        = Nat.ofDigitChars 10 rest (10 * acc + (c.toNat - '0'.toNat)) := Nat.ofDigitChars_cons
      _ < (10 * acc + (c.toNat - '0'.toNat) + 1) * 10 ^ rest.length := ih hrest _
      _ ≤ ((acc + 1) * 10) * 10 ^ rest.length := Nat.mul_le_mul_right _ (by omega)
      _ = (acc + 1) * 10 ^ (c :: rest).length := by
        rw [List.length_cons, Nat.pow_succ', Nat.mul_assoc]

theorem decimalNumber?_lt (h : decimalNumber? cs = some n) : n < 10 ^ cs.length := by
  obtain ⟨_, hdigits, rfl⟩ := decimalNumber?_eq_some.mp h
  simpa using ofDigitChars_lt hdigits 0

theorem length_toDigits_le (h : decimalNumber? cs = some n) :
    (Nat.toDigits 10 n).length ≤ cs.length := by
  have hne := (decimalNumber?_eq_some.mp h).1
  exact (Nat.length_toDigits_le_iff (by decide) (List.length_pos_iff.mpr hne)).mpr (decimalNumber?_lt h)

theorem all_isDigit_toDigits (n : Nat) : (Nat.toDigits 10 n).all Char.isDigit = true :=
  List.all_eq_true.mpr fun _ hc => Nat.isDigit_of_mem_toDigits (by decide) (by decide) hc

theorem decimalNumber?_toDigits (n : Nat) : decimalNumber? (Nat.toDigits 10 n) = some n :=
  decimalNumber?_eq_some.mpr ⟨Nat.toDigits_ne_nil, all_isDigit_toDigits n, Nat.ofDigitChars_ten_toDigits⟩

theorem decimalNumber?_zeros_append (k d : Nat) :
    decimalNumber? (List.replicate k '0' ++ Nat.toDigits 10 d) = some d := by
  refine decimalNumber?_eq_some.mpr ⟨by simp [Nat.toDigits_ne_nil], ?_, ?_⟩
  · rw [List.all_append, all_isDigit_toDigits, List.all_replicate]
    simp
  · rw [Nat.ofDigitChars_append, Nat.ofDigitChars_replicate_zero, Nat.mul_zero,
      Nat.ofDigitChars_ten_toDigits]

theorem decimalNumber?_append_zeros (d k : Nat) :
    decimalNumber? (Nat.toDigits 10 d ++ List.replicate k '0') = some (d * 10 ^ k) := by
  refine decimalNumber?_eq_some.mpr ⟨by simp [Nat.toDigits_ne_nil], ?_, ?_⟩
  · rw [List.all_append, all_isDigit_toDigits, List.all_replicate]
    simp
  · rw [Nat.ofDigitChars_append, Nat.ofDigitChars_replicate_zero, Nat.ofDigitChars_ten_toDigits,
      Nat.mul_comm]

theorem toDigits_of_pos {n : Nat} (h : 0 < n) :
    ∃ c cs, Nat.toDigits 10 n = c :: cs ∧ c.isDigit = true ∧ c ≠ '0' := by
  induction n using Nat.strongRecOn with
  | ind n ih =>
    rcases Nat.lt_or_ge n 10 with hlt | hge
    · refine ⟨_, [], Nat.toDigits_of_lt_base hlt, ?_, ?_⟩
      · rw [Nat.isDigit_digitChar]
        exact decide_eq_true hlt
      · intro heq
        have hvalue := Nat.toNat_digitChar_sub_48_of_lt_ten hlt
        rw [heq] at hvalue
        exact Nat.lt_irrefl 0 (Nat.lt_of_lt_of_eq h hvalue.symm)
    · obtain ⟨c, cs, hcs, hc⟩ := ih (n / 10) (by omega) (by omega)
      exact ⟨c, cs ++ [(n % 10).digitChar], by rw [Nat.toDigits_of_base_le (by decide) hge, hcs]; rfl, hc⟩

theorem takeWhile_digits {ds rest : List Char} (h : ds.all Char.isDigit = true)
    (hrest : ∀ c ∈ rest.head?, c.isDigit = false) :
    (ds ++ rest).takeWhile Char.isDigit = ds ∧ (ds ++ rest).dropWhile Char.isDigit = rest := by
  have hall := List.all_eq_true.mp h
  rw [List.takeWhile_append_of_pos hall, List.dropWhile_append_of_pos hall]
  cases rest with
  | nil => simp
  | cons c rest =>
    have hc := hrest c rfl
    simp [hc]

end JudgedLint.Text
