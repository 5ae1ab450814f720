import JudgedLint.Proofs.Form.Integer
import JudgedLint.Report.Console
import Mathlib

/-! Where numbers stay within the range of floats. A whole number below `2 ^ 1024`, such as a count of
milliseconds, is finite as a count of seconds. -/
namespace JudgedLint.Decimal

open Float.Model Float.Model.UnpackedFloat

/-- A number that stays finite when it is packed. -/
def InRange : UnpackedFloat → Prop
  | .infinity _ => False
  | .finite _ _ e _ => e ≤ 971
  | _ => True

theorem unpack_isInf {b : BitVec Format.binary64.numBits} (h : unpackExponent b ≠ -1#_) :
    (UnpackedFloat.unpack Format.binary64 b).isInf = false := by
  rw [UnpackedFloat.unpack]
  simp only [if_neg h]
  split
  · split <;> rfl
  · rfl

/-- An exponent of at most 971 leaves the greatest biased one to the infinities. -/
theorem InRange.unpack_pack_isInf {u : UnpackedFloat} (h : InRange u) :
    (UnpackedFloat.unpack Format.binary64 (UnpackedFloat.pack Format.binary64 u)).isInf = false := by
  cases u with
  | infinity s => exact h.elim
  | notANumber =>
    rw [UnpackedFloat.pack, unpack_packedNaN]
    rfl
  | zero s =>
    rw [UnpackedFloat.pack, unpack_packedZero]
    rfl
  | finite s m e hm =>
    have he : e ≤ 971 := h
    have hlt : ¬ 2 ^ Format.binary64.exponentBits ≤
        (e + Format.binary64.exponentBias + Format.binary64.mantissaBitsWithoutImplicit).toNat + 1 := by
      change ¬ 2 ^ 11 ≤ (e + 1023 + 52).toNat + 1
      omega
    refine unpack_isInf ?_
    rw [UnpackedFloat.pack]
    simp only [if_neg hlt]
    split
    · rw [unpackExponent_packComponents]
      intro heq
      have hnat : (e + 1023 + 52).toNat % 2 ^ 11 = 2047 := congrArg BitVec.toNat heq
      omega
    · rw [unpackExponent_packComponents]
      decide

theorem unpack_finite {b : BitVec Format.binary64.numBits} {s : Sign} {m : Nat} {e : Int} {hm : 0 < m}
    (h : UnpackedFloat.unpack Format.binary64 b = .finite s m e hm) : m < 2 ^ 53 ∧ e ≤ 971 := by
  rw [UnpackedFloat.unpack] at h
  have hbias : ((Format.binary64.exponentBias : Nat) : Int) = 1023 := rfl
  have hexponent := (unpackExponent b).isLt
  have hfraction := (unpackMantissa b).isLt
  simp only [hbias] at h hexponent hfraction
  split at h
  · split at h <;> cases h
  · next hne =>
    have hne : (unpackExponent b).toNat ≠ 2047 := fun heq => hne (BitVec.eq_of_toNat_eq heq)
    split at h
    · next hzero =>
      split at h
      · cases h
      · cases h
        rw [hzero]
        exact ⟨by omega, by decide⟩
    · cases h
      refine ⟨?_, by omega⟩
      exact (1#1 ++ unpackMantissa b).isLt

theorem shiftRight_mantissa (em : ExtendedMantissa) (k : Nat) :
    (em >>> k).mantissa = em.mantissa / 2 ^ k := by
  induction k with
  | zero => exact (Nat.div_one _).symm
  | succ k ih =>
    rw [Nat.pow_succ, ← Nat.div_div_eq_div_mul, ← ih]
    rfl

theorem roundedMantissa_le (em : ExtendedMantissa) : em.roundedMantissa ≤ em.mantissa + 1 := by
  rw [ExtendedMantissa.roundedMantissa]
  generalize em.accuracy = a
  match a with
  | .exact | .inexact .lt => exact Nat.le_succ _
  | .inexact .eq =>
    have hparity : em.mantissa % 2 < 2 := Nat.mod_lt _ (by decide)
    simp only [Accuracy.roundToNearestEven]
    omega
  | .inexact .gt => exact Nat.le_refl _

theorem targetExponent_eq (total : Int) :
    Format.binary64.targetExponent total = max (total - 53) (-1074) := rfl

theorem shiftToTargetExponent_snd (m : Nat) (e : Int) (a : Accuracy) :
    (shiftToTargetExponent Format.binary64 m e a).2 = max e (max (totalExponent m e - 53) (-1074)) := by
  simp only [shiftToTargetExponent, shiftToExponent, targetExponent_eq]
  omega

theorem shiftToTargetExponent_mantissa_lt (m : Nat) (e : Int) (a : Accuracy) :
    (shiftToTargetExponent Format.binary64 m e a).1.mantissa < 2 ^ 53 := by
  have hstart : (ExtendedMantissa.ofMantissaAndAccuracy m a).mantissa = m := by
    match a with
    | .exact | .inexact .lt | .inexact .eq | .inexact .gt => rfl
  simp only [shiftToTargetExponent, shiftToExponent, targetExponent_eq, shiftRight_mantissa, hstart,
    totalExponent]
  generalize hk : (max ((m.log2 : Int) + 1 + e - 53) (-1074) - e).toNat = k
  have hlog : m.log2 + 1 ≤ 53 + k := by omega
  refine (Nat.div_lt_iff_lt_mul (Nat.two_pow_pos k)).mpr ?_
  calc m < 2 ^ (m.log2 + 1) := Nat.lt_log2_self
    _ ≤ 2 ^ (53 + k) := Nat.pow_le_pow_right (by decide) hlog
    _ = 2 ^ 53 * 2 ^ k := Nat.pow_add ..

theorem roundWithAccuracy_inRange {s : Sign} {m : Nat} {e : Int} {a : Accuracy} (he : e ≤ 970)
    (htotal : totalExponent m e ≤ 1023) : InRange (roundWithAccuracy Format.binary64 s m e a) := by
  simp only [roundWithAccuracy]
  split
  · trivial
  · change (shiftToTargetExponent Format.binary64 _ _ .exact).2 ≤ 971
    have hrounded := roundedMantissa_le (shiftToTargetExponent Format.binary64 m e a).1
    have hlt := shiftToTargetExponent_mantissa_lt m e a
    have hlog := log2_le_of_lt (k := 53) (Nat.lt_of_le_of_lt hrounded (by omega))
    rw [totalExponent] at htotal
    simp only [shiftToTargetExponent_snd, totalExponent]
    omega

/-- A quotient has hardly more binary digits than its numerator has in excess of its denominator. -/
theorem quotient_lt {m₁ m₂ k : Nat} (hm₂ : 0 < m₂) :
    (m₁ <<< k) / m₂ < 2 ^ (m₁.log2 + 1 + k - m₂.log2 + 1) := by
  refine (Nat.div_lt_iff_lt_mul hm₂).mpr ?_
  calc m₁ <<< k = m₁ * 2 ^ k := Nat.shiftLeft_eq ..
    _ < 2 ^ (m₁.log2 + 1) * 2 ^ k := Nat.mul_lt_mul_of_pos_right Nat.lt_log2_self (Nat.two_pow_pos k)
    _ = 2 ^ (m₁.log2 + 1 + k) := (Nat.pow_add ..).symm
    _ ≤ 2 ^ (m₁.log2 + 1 + k - m₂.log2 + 1 + m₂.log2) := Nat.pow_le_pow_right (by decide) (by omega)
    _ = 2 ^ (m₁.log2 + 1 + k - m₂.log2 + 1) * 2 ^ m₂.log2 := Nat.pow_add ..
    _ ≤ _ := Nat.mul_le_mul_left _ (Nat.log2_self_le (Nat.ne_of_gt hm₂))

theorem div_inRange {s₁ s₂ : Sign} {m₁ m₂ : Nat} {e₁ e₂ : Int} {hm₁ : 0 < m₁} {hm₂ : 0 < m₂}
    (h : totalExponent m₁ e₁ - totalExponent m₂ e₂ ≤ 1020) :
    InRange (UnpackedFloat.div Format.binary64 (.finite s₁ m₁ e₁ hm₁) (.finite s₂ m₂ e₂ hm₂)) := by
  simp only [UnpackedFloat.div, divCore, targetExponent_eq]
  generalize ht : min (e₁ - e₂) (max (totalExponent m₁ e₁ - totalExponent m₂ e₂ - 53) (-1074)) = t
  have hlog := log2_le_of_lt (@quotient_lt m₁ m₂ (e₁ - e₂ - t).toNat hm₂)
  rw [totalExponent, totalExponent] at h ht
  refine roundWithAccuracy_inRange (by omega) ?_
  rw [totalExponent]
  omega

theorem ofNat_inRange {n : Nat} (h : n < 2 ^ 64) : InRange (UnpackedFloat.ofNat Format.binary64 n) := by
  rw [UnpackedFloat.ofNat, UnpackedFloat.ofInt, UnpackedFloat.normalize]
  split
  · next hlt => exact absurd (Int.compare_eq_lt.mp hlt) (by omega)
  · trivial
  · simp only [UnpackedFloat.round, decreaseExponent, targetExponent_eq, Int.toNat_natCast]
    generalize hk : ((0 : Int) - max (totalExponent n 0 - 53) (-1074)).toNat = k
    have hlog : (n <<< k).log2 ≤ 64 + k := by
      refine log2_le_of_lt ?_
      calc n <<< k = n * 2 ^ k := Nat.shiftLeft_eq ..
        _ < 2 ^ 64 * 2 ^ k := Nat.mul_lt_mul_of_pos_right h (Nat.two_pow_pos k)
        _ = 2 ^ (64 + k) := (Nat.pow_add ..).symm
        _ ≤ 2 ^ (64 + k + 1) := Nat.pow_le_pow_right (by decide) (Nat.le_succ _)
    refine roundWithAccuracy_inRange (by omega) ?_
    rw [totalExponent]
    omega

theorem inRange_unpack {x : Float} (h : x.isInf = false) : InRange x.toModel.unpack := by
  have hinf : x.toModel.unpack.isInf = false := h
  cases hu : x.toModel.unpack with
  | infinity s =>
    rw [hu] at hinf
    cases hinf
  | notANumber => trivial
  | zero s => trivial
  | finite s m e hm => exact (unpack_finite hu).2

theorem float_div_isInf {x : Float} {s : Sign} {m : Nat} {e : Int} {hm : 0 < m} {y : Float}
    (hx : x.isInf = false) (hy : y.toModel.unpack = .finite s m e hm) (hone : 4 ≤ totalExponent m e) :
    (x / y).isInf = false := by
  refine InRange.unpack_pack_isInf
    (u := UnpackedFloat.div Format.binary64 x.toModel.unpack y.toModel.unpack) ?_
  have hrange := inRange_unpack hx
  rw [hy]
  cases hu : x.toModel.unpack with
  | infinity s' =>
    rw [hu] at hrange
    exact hrange.elim
  | notANumber => trivial
  | zero s' => trivial
  | finite s' m' e' hm' =>
    obtain ⟨hlt, he⟩ := unpack_finite hu
    have hlog := log2_le_of_lt (k := 52) hlt
    refine div_inRange ?_
    rw [totalExponent] at hone ⊢
    rw [totalExponent]
    omega

theorem toFloat_isInf (n : UInt64) : n.toFloat.isInf = false :=
  InRange.unpack_pack_isInf (ofNat_inRange n.toNat_lt)

theorem unpack_thousand : ∃ s hm, Float.exactlyRepresentablePowersOfTen[3].toModel.unpack =
    .finite s 8796093022208000 (-43) hm :=
  ⟨.positive, by decide, by with_unfolding_all rfl⟩

theorem ofScientific_inRange {n : Nat} (h : n.log2 ≤ 1023) :
    InRange (UnpackedFloat.ofScientific Format.binary64 n (-3)) := by
  unfold UnpackedFloat.ofScientific
  split
  · trivial
  · next hn =>
    split
    · next hlt => exact absurd hlt (by decide)
    · split
      · trivial
      · have hthousand : totalExponent (10 ^ (- -3 : Int).toNat) 0 = 10 := by decide
        refine @div_inRange _ _ _ _ _ _ (Nat.pos_of_ne_zero hn) (by decide) ?_
        rw [hthousand, totalExponent]
        omega

theorem ofScientific_isInf {n : Nat} (h : n.log2 ≤ 1023) : (Float.ofScientific n true 3).isInf = false := by
  by_cases hsmall : n < 2 ^ 53
  · obtain ⟨s, hm, hthousand⟩ := unpack_thousand
    rw [Float.ofScientific, dif_pos ⟨hsmall, by decide⟩]
    exact float_div_isInf (toFloat_isInf _) hthousand (by decide)
  · rw [Float.ofScientific, dif_neg fun hboth => hsmall hboth.1]
    exact (ofScientific_inRange h).unpack_pack_isInf

theorem InRange.neg {u : UnpackedFloat} (h : InRange u) : InRange u.neg := by
  cases u <;> exact h

theorem neg_isInf {x : Float} (h : x.isInf = false) : (-x).isInf = false :=
  (inRange_unpack h).neg.unpack_pack_isInf

theorem length_toString_le {n q : Nat} (h : n.log2 ≤ 93 * q) : (toString n).length ≤ 28 * q + 1 := by
  have hlt : n < 10 ^ (28 * q + 1) := by
    calc n < 2 ^ (n.log2 + 1) := Nat.lt_log2_self
      _ ≤ 2 ^ (93 * q + 1) := Nat.pow_le_pow_right (by decide) (by omega)
      _ = (2 ^ 93) ^ q * 2 := by rw [Nat.pow_succ, Nat.pow_mul]
      _ ≤ (10 ^ 28) ^ q * 10 := Nat.mul_le_mul (Nat.pow_le_pow_left (by decide) q) (by decide)
      _ = 10 ^ (28 * q + 1) := by rw [← Nat.pow_mul, ← Nat.pow_succ]
  rw [Nat.toString_eq_ofList_toDigits, String.length_ofList]
  exact (Nat.length_toDigits_le_iff (by decide) (Nat.succ_pos _)).mpr hlt

theorem floatOfDecimal_isInf {negative : Bool} {n : Nat} (h : n.log2 ≤ 1023) :
    (floatOfDecimal negative n (-3)).isInf = false := by
  have hlength := length_toString_le (q := 11) h
  have hlarge : ¬ 310 < ((toString n).length : Int) + -3 := by omega
  have hmagnitude : (if (n == 0) = true then 0.0
      else if ((toString n).length : Int) + -3 < -330 then 0.0
      else Float.ofScientific n true 3).isInf = false := by
    split
    · decide
    · split
      · decide
      · exact ofScientific_isInf h
  rw [floatOfDecimal]
  simp only [if_neg hlarge]
  cases negative with
  | false => exact hmagnitude
  | true => exact neg_isInf hmagnitude

end JudgedLint.Decimal

namespace JudgedLint.Report

/-- Milliseconds that a float counts are finite as seconds. -/
theorem secondsOf_isInf {ms : Int} (h : ms.natAbs.log2 ≤ 1023) : (secondsOf ms).isInf = false :=
  Decimal.floatOfDecimal_isInf h

end JudgedLint.Report
