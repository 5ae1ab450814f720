import JudgedLint.Proofs.Decimal.Range
import JudgedLint.Decimal.Reading

/-! A decimal is read as the float that it lies nearest to. What is near a float is said once, with numbers
over the rationals (`Near`); rounding takes every such number to the float, and so do the product and the
quotient in whose place a decimal stands. The unpacked numbers are tied to floats by their bits. -/
namespace JudgedLint.Decimal

open Float.Model Float.Model.UnpackedFloat

/-- A quotient whose whole part is taken, with what is known of the rest. -/
def ofFraction (a b : Nat) : ExtendedMantissa :=
  ExtendedMantissa.ofMantissaAndAccuracy (a / b) (accuracyOfFraction (a % b) b)

variable {a b k mant : Nat} {e exp : Int} {s : Sign} {v : ℚ}

theorem ofFraction_eq (hb : 0 < b) : ofFraction a b =
    ⟨a / b, decide (b ≤ 2 * (a % b)), decide (a % b ≠ 0 ∧ 2 * (a % b) ≠ b)⟩ := by
  rw [ofFraction, accuracyOfFraction]
  split
  · next hzero => simp [hzero, ExtendedMantissa.ofMantissaAndAccuracy, Nat.ne_of_gt hb]
  · next hrest =>
    rcases Nat.lt_trichotomy (2 * (a % b)) b with h | h | h
    · simp [Nat.compare_eq_lt.mpr h, ExtendedMantissa.ofMantissaAndAccuracy, hrest, h, Nat.ne_of_lt h]
    · simp [ExtendedMantissa.ofMantissaAndAccuracy, h]
    · simp [Nat.compare_eq_gt.mpr h, ExtendedMantissa.ofMantissaAndAccuracy, hrest, Nat.le_of_lt h,
        Nat.ne_of_gt h]

theorem shiftRightOne_ofFraction (hb : 0 < b) :
    (ofFraction a b).shiftRightOne = ofFraction a (b * 2) := by
  have hrest : a % (b * 2) = a % b + b * (a / b % 2) := Nat.mod_mul
  have hlt := Nat.mod_lt a hb
  rw [ofFraction_eq hb, ofFraction_eq (Nat.mul_pos hb (by decide)), ExtendedMantissa.shiftRightOne,
    ← Nat.div_div_eq_div_mul, hrest]
  rcases Nat.mod_two_eq_zero_or_one (a / b) with h | h
  · simp only [h, ExtendedMantissa.mk.injEq, true_and]
    constructor
    · simp; omega
    · rw [← Bool.decide_or, decide_eq_decide]
      omega
  · simp only [h, ExtendedMantissa.mk.injEq, true_and]
    constructor
    · simp; omega
    · rw [← Bool.decide_or, decide_eq_decide]
      omega

theorem shiftRight_ofFraction (hb : 0 < b) (k : Nat) :
    ofFraction a b >>> k = ofFraction a (b * 2 ^ k) := by
  induction k with
  | zero => rw [Nat.pow_zero, Nat.mul_one]; rfl
  | succ k ih =>
    rw [Nat.pow_succ, ← Nat.mul_assoc, ← shiftRightOne_ofFraction (Nat.mul_pos hb (Nat.two_pow_pos k)), ← ih]
    rfl

theorem roundedMantissa_mk (m : Nat) (round sticky : Bool) :
    ExtendedMantissa.roundedMantissa ⟨m, round, sticky⟩ =
      if round then if sticky then m + 1 else m + m % 2 else m := by
  cases round <;> cases sticky <;> rfl

theorem roundedMantissa_ofFraction (hb : 0 < b) : (ofFraction a b).roundedMantissa = roundHalfEven a b := by
  rw [ofFraction_eq hb, roundedMantissa_mk]
  simp only [roundHalfEven, decide_eq_true_eq]
  rcases Nat.lt_trichotomy (2 * (a % b)) b with h | h | h
  · rw [if_neg (by omega), if_pos h]
  · have hparity : a / b % 2 = 0 ∨ a / b % 2 = 1 := Nat.mod_two_eq_zero_or_one _
    rw [if_pos (by omega), if_neg (by omega), if_neg (by omega), if_neg (by omega)]
    rcases hparity with hparity | hparity <;> simp [hparity]
  · rw [if_pos (by omega), if_pos (by omega), if_neg (by omega), if_pos h]

/-- What a quotient is rounded to: a half goes to the even side. -/
theorem roundHalfEven_eq (hb : 0 < b) (hlow : 2 * (mant * b) ≤ 2 * a + b) (hhigh : 2 * a ≤ 2 * (mant * b) + b)
    (hodd : mant % 2 = 1 → 2 * (mant * b) < 2 * a + b ∧ 2 * a < 2 * (mant * b) + b) :
    roundHalfEven a b = mant := by
  have hsplit := Nat.div_add_mod a b
  have hlt := Nat.mod_lt a hb
  have hmin : mant < a / b + 2 := by
    refine Nat.lt_of_mul_lt_mul_right (a := b) ?_
    rw [Nat.add_mul, Nat.mul_comm (a / b)]
    omega
  have hmax : a / b < mant + 1 := by
    refine Nat.lt_of_mul_lt_mul_right (a := b) ?_
    rw [Nat.add_mul, Nat.mul_comm (a / b)]
    omega
  have hcases : a / b = mant ∨ a / b + 1 = mant := by omega
  simp only [roundHalfEven]
  rcases hcases with heq | heq
  · rw [heq, Nat.mul_comm b] at hsplit
    rw [heq]
    split
    · rfl
    · split
      · omega
      · split
        · rfl
        · next hpar =>
          have hpar : mant % 2 = 1 := by simpa using hpar
          have := hodd hpar
          omega
  · have hprod : mant * b = b * (a / b) + b := by rw [← heq, Nat.add_mul, Nat.mul_comm b, Nat.one_mul]
    rw [heq]
    split
    · omega
    · split
      · rfl
      · split
        · next hpar =>
          have hpar : mant % 2 = 1 := by
            simp only [beq_iff_eq] at hpar
            omega
          have := hodd hpar
          omega
        · rfl

/-! ### Numbers near a float -/

/-- A float in the form in which it is kept: as many digits as it can have, or the least exponent. -/
structure Canonical (mant : Nat) (exp : Int) : Prop where
  pos : 0 < mant
  lt : mant < 2 ^ 53
  least : -1074 ≤ exp
  most : exp ≤ 971
  normal : exp = -1074 ∨ 2 ^ 52 ≤ mant

/-- How far below a float the numbers reach that are rounded to it, in units of its last place. A power of
two has its lower neighbour at half the distance. -/
def gap (mant : Nat) (exp : Int) : ℚ := if mant = hiddenBit ∧ exp ≠ -1074 then 1 / 4 else 1 / 2

/-- A number that is rounded to the float `mant · 2 ^ exp`: it lies between the middles to the neighbours, or
on one if the float is even. -/
structure Near (mant : Nat) (exp : Int) (v : ℚ) : Prop where
  low : (mant - gap mant exp) * 2 ^ exp ≤ v
  high : v ≤ (mant + 1 / 2) * 2 ^ exp
  odd : mant % 2 = 1 → (mant - gap mant exp) * 2 ^ exp < v ∧ v < (mant + 1 / 2) * 2 ^ exp

theorem gap_le (mant : Nat) (exp : Int) : gap mant exp ≤ 1 / 2 := by
  rw [gap]
  split
  · norm_num
  · exact le_refl _

theorem gap_pos (mant : Nat) (exp : Int) : 0 < gap mant exp := by
  rw [gap]
  split
  · norm_num
  · norm_num

theorem two_zpow_pos (e : Int) : (0 : ℚ) < 2 ^ e := zpow_pos (by norm_num) e

theorem lt_of_two_zpow_lt {m n : Int} (h : (2 : ℚ) ^ m < 2 ^ n) : m < n :=
  (zpow_lt_zpow_iff_right₀ (by norm_num)).mp h

theorem lt_two_zpow_total (hb : 0 < b) (hv : v = (a : ℚ) / b * 2 ^ e) : v < 2 ^ totalExponent (a / b) e := by
  have hb' : (0 : ℚ) < b := Nat.cast_pos.mpr hb
  have hlog : a < 2 ^ ((a / b).log2 + 1) * b := (Nat.div_lt_iff_lt_mul hb).mp Nat.lt_log2_self
  have hquotient : (a : ℚ) / b < 2 ^ ((a / b).log2 + 1) := by
    rw [div_lt_iff₀ hb']
    exact_mod_cast hlog
  rw [hv, totalExponent, zpow_add₀ (by norm_num)]
  refine mul_lt_mul_of_pos_right ?_ (two_zpow_pos e)
  exact_mod_cast hquotient

theorem two_zpow_total_le (hb : 0 < b) (hne : a / b ≠ 0) (hv : v = (a : ℚ) / b * 2 ^ e) :
    2 ^ (totalExponent (a / b) e - 1) ≤ v := by
  have hb' : (0 : ℚ) < b := Nat.cast_pos.mpr hb
  have hlog : 2 ^ (a / b).log2 * b ≤ a :=
    (Nat.le_div_iff_mul_le hb).mp (Nat.log2_self_le hne)
  have hquotient : 2 ^ (a / b).log2 ≤ (a : ℚ) / b := by
    rw [le_div_iff₀ hb']
    exact_mod_cast hlog
  have hexponent : totalExponent (a / b) e - 1 = ((a / b).log2 : Int) + e := by
    rw [totalExponent]
    omega
  rw [hv, hexponent, zpow_add₀ (by norm_num)]
  refine mul_le_mul_of_nonneg_right ?_ (two_zpow_pos e).le
  exact_mod_cast hquotient

section Near

variable (hc : Canonical mant exp) (hnear : Near mant exp v)
include hc hnear

theorem Near.lt_top : v < 2 ^ (53 + exp) := by
  have hmant : (mant : ℚ) + 1 ≤ 9007199254740992 := by exact_mod_cast hc.lt
  rw [zpow_add₀ (by norm_num)]
  refine lt_of_le_of_lt hnear.high (mul_lt_mul_of_pos_right ?_ (two_zpow_pos exp))
  norm_num
  linarith

theorem Near.bottom_lt (hexp : exp ≠ -1074) : 2 ^ (51 + exp) < v := by
  have hnormal : 2 ^ 52 ≤ mant := hc.normal.resolve_left hexp
  have hmant : (4503599627370496 : ℚ) ≤ mant := by exact_mod_cast hnormal
  have hgap := gap_le mant exp
  rw [zpow_add₀ (by norm_num)]
  refine lt_of_lt_of_le (mul_lt_mul_of_pos_right ?_ (two_zpow_pos exp)) hnear.low
  norm_num
  linarith

theorem Near.lower_binade (hexp : exp ≠ -1074) (hlow : v < 2 ^ (52 + exp)) : mant = 2 ^ 52 := by
  have hnormal : 2 ^ 52 ≤ mant := hc.normal.resolve_left hexp
  by_contra hne
  have hmant : (4503599627370496 : ℚ) + 1 ≤ mant := by exact_mod_cast Nat.lt_of_le_of_ne hnormal (Ne.symm hne)
  have hgap := gap_le mant exp
  refine absurd (lt_of_le_of_lt hnear.low hlow) (not_lt.mpr ?_)
  rw [zpow_add₀ (by norm_num)]
  refine mul_le_mul_of_nonneg_right ?_ (two_zpow_pos exp).le
  norm_num
  linarith

end Near

/-- The exponent to which a number near a float is shifted: that of the float, or one less if the number lies
below a power of two that it is rounded up to. -/
theorem Near.targetExponent (hc : Canonical mant exp) (hnear : Near mant exp v) (hb : 0 < b)
    (hv : v = (a : ℚ) / b * 2 ^ e) (he : e ≤ Format.binary64.targetExponent (totalExponent (a / b) e)) :
    Format.binary64.targetExponent (totalExponent (a / b) e) = exp ∨
      (Format.binary64.targetExponent (totalExponent (a / b) e) = exp - 1 ∧ exp ≠ -1074 ∧ mant = 2 ^ 52 ∧
        v < 2 ^ (52 + exp)) := by
  rw [targetExponent_eq] at he ⊢
  have habove := lt_two_zpow_total hb hv
  have hle : totalExponent (a / b) e - 53 ≤ exp := by
    by_cases hzero : a / b = 0
    · rw [hzero, totalExponent] at he ⊢
      have := hc.least
      simp only [Nat.log2_zero, Nat.cast_zero] at he ⊢
      omega
    · have hlt := lt_of_two_zpow_lt (lt_of_le_of_lt (two_zpow_total_le hb hzero hv) (hnear.lt_top hc))
      omega
  have hleast := hc.least
  by_cases hexp : exp = -1074
  · left
    omega
  · have hbottom := lt_of_two_zpow_lt ((hnear.bottom_lt hc hexp).trans habove)
    by_cases hlow : v < 2 ^ (52 + exp)
    · have hmant := hnear.lower_binade hc hexp hlow
      by_cases htop : totalExponent (a / b) e = 53 + exp
      · left
        omega
      · right
        refine ⟨by omega, hexp, hmant, hlow⟩
    · left
      have := lt_of_two_zpow_lt (lt_of_le_of_lt (not_lt.mp hlow) habove)
      omega

theorem shiftToTargetExponent_ofFraction (hb : 0 < b)
    (he : e ≤ Format.binary64.targetExponent (totalExponent (a / b) e)) :
    shiftToTargetExponent Format.binary64 (a / b) e (accuracyOfFraction (a % b) b) =
      (ofFraction a (b * 2 ^ (Format.binary64.targetExponent (totalExponent (a / b) e) - e).toNat),
        Format.binary64.targetExponent (totalExponent (a / b) e)) := by
  rw [shiftToTargetExponent, shiftToExponent, ← shiftRight_ofFraction hb]
  refine Prod.ext rfl ?_
  simp only
  omega

theorem fraction_shift {t : Int} (hv : v = (a : ℚ) / b * 2 ^ e) (he : e ≤ t) :
    (a : ℚ) / (b * 2 ^ (t - e).toNat : Nat) = v / 2 ^ t := by
  have hpower : (2 : ℚ) ^ t = 2 ^ (t - e).toNat * 2 ^ e := by
    rw [← zpow_natCast, ← zpow_add₀ (by norm_num)]
    congr 1
    omega
  have hne := (two_zpow_pos e).ne'
  rw [hv, hpower, Nat.cast_mul, Nat.cast_pow, Nat.cast_ofNat]
  field_simp

theorem Near.roundHalfEven (hnear : Near mant exp v) (hb : 0 < b) (hw : (a : ℚ) / b = v / 2 ^ exp) :
    roundHalfEven a b = mant := by
  have hb' : (0 : ℚ) < b := Nat.cast_pos.mpr hb
  have hpos := two_zpow_pos exp
  have hgap := gap_le mant exp
  have hlow : (mant : ℚ) - 1 / 2 ≤ a / b := by
    have h := (le_div_iff₀ hpos).mpr hnear.low
    rw [hw]
    linarith
  have hhigh : (a : ℚ) / b ≤ mant + 1 / 2 := hw ▸ (div_le_iff₀ hpos).mpr hnear.high
  rw [le_div_iff₀ hb'] at hlow
  rw [div_le_iff₀ hb'] at hhigh
  refine roundHalfEven_eq hb ?_ ?_ fun hodd => ⟨?_, ?_⟩
  · have h : (2 * (mant * b) : ℚ) ≤ 2 * a + b := by linarith
    exact_mod_cast h
  · have h : (2 * a : ℚ) ≤ 2 * (mant * b) + b := by linarith
    exact_mod_cast h
  · have hlt : (mant : ℚ) - 1 / 2 < a / b := by
      have h := (lt_div_iff₀ hpos).mpr (hnear.odd hodd).1
      rw [hw]
      linarith
    rw [lt_div_iff₀ hb'] at hlt
    have h : (2 * (mant * b) : ℚ) < 2 * a + b := by linarith
    exact_mod_cast h
  · have hlt : (a : ℚ) / b < mant + 1 / 2 := hw ▸ (div_lt_iff₀ hpos).mpr (hnear.odd hodd).2
    rw [div_lt_iff₀ hb'] at hlt
    have h : (2 * a : ℚ) < 2 * (mant * b) + b := by linarith
    exact_mod_cast h

/-- Below a power of two, what is near it is rounded up to it. -/
theorem Near.roundHalfEven_below (hnear : Near (2 ^ 52) exp v) (hb : 0 < b) (hexp : exp ≠ -1074)
    (hlow : v < 2 ^ (52 + exp)) (hw : (a : ℚ) / b = v / 2 ^ (exp - 1)) :
    Decimal.roundHalfEven a b = 2 ^ 53 := by
  have hb' : (0 : ℚ) < b := Nat.cast_pos.mpr hb
  have hpos := two_zpow_pos exp
  have hgap : gap (2 ^ 52) exp = 1 / 4 := if_pos ⟨rfl, hexp⟩
  have hw' : (a : ℚ) / b = 2 * (v / 2 ^ exp) := by
    rw [hw, zpow_sub_one₀ (by norm_num)]
    field_simp
  have hmin := (le_div_iff₀ hpos).mpr hnear.low
  have hmax : v / 2 ^ exp < 2 ^ (52 : Int) := by
    rwa [div_lt_iff₀ hpos, ← zpow_add₀ (by norm_num)]
  rw [hgap] at hmin
  norm_num at hmin hmax
  have hleast : (9007199254740991.5 : ℚ) ≤ a / b := by
    rw [hw']
    linarith
  have hmost : (a : ℚ) / b < 9007199254740992 := by
    rw [hw']
    linarith
  rw [le_div_iff₀ hb'] at hleast
  rw [div_lt_iff₀ hb'] at hmost
  refine roundHalfEven_eq hb ?_ ?_ fun hodd => absurd hodd (by decide)
  · have h : (2 * (9007199254740992 * b) : ℚ) ≤ 2 * a + b := by linarith
    exact_mod_cast h
  · have h : (2 * a : ℚ) ≤ 2 * (9007199254740992 * b) + b := by linarith
    exact_mod_cast h

theorem Canonical.shift (hc : Canonical mant exp) :
    shiftToTargetExponent Format.binary64 mant exp .exact = (⟨mant, false, false⟩, exp) := by
  have hlog := log2_le_of_lt (k := 52) hc.lt
  have hleast := hc.least
  have hstay : (max (totalExponent mant exp - 53) (-1074) - exp).toNat = 0 := by
    rw [totalExponent]
    omega
  rw [shiftToTargetExponent, shiftToExponent, targetExponent_eq, hstay]
  exact Prod.ext rfl (Int.add_zero exp)

theorem shift_carry (hexp : -1074 ≤ exp - 1) :
    shiftToTargetExponent Format.binary64 (2 ^ 53) (exp - 1) .exact = (⟨2 ^ 52, false, false⟩, exp) := by
  have hone : (max (totalExponent (2 ^ 53) (exp - 1) - 53) (-1074) - (exp - 1)).toNat = 1 := by
    rw [totalExponent, Nat.log2_two_pow]
    omega
  rw [shiftToTargetExponent, shiftToExponent, targetExponent_eq, hone]
  exact Prod.ext rfl (by simp)

theorem roundWithAccuracy_of_shifts {m m' : Nat} {t e' : Int} {acc : Accuracy} {em : ExtendedMantissa}
    (hfirst : shiftToTargetExponent Format.binary64 m e acc = (em, t))
    (hsecond : shiftToTargetExponent Format.binary64 em.roundedMantissa t .exact = (⟨m', false, false⟩, e'))
    (hpos : 0 < m') : roundWithAccuracy Format.binary64 s m e acc = .finite s m' e' hpos := by
  simp only [roundWithAccuracy, hfirst, hsecond, dif_neg (Nat.ne_of_gt hpos)]

/-- A number near a float is rounded to it. -/
theorem roundWithAccuracy_near (hc : Canonical mant exp) (hnear : Near mant exp v) (hb : 0 < b)
    (hv : v = (a : ℚ) / b * 2 ^ e) (he : e ≤ Format.binary64.targetExponent (totalExponent (a / b) e)) :
    roundWithAccuracy Format.binary64 s (a / b) e (accuracyOfFraction (a % b) b) =
      .finite s mant exp hc.pos := by
  have hw := fraction_shift hv he
  refine roundWithAccuracy_of_shifts (shiftToTargetExponent_ofFraction hb he) ?_ hc.pos
  rw [roundedMantissa_ofFraction (Nat.mul_pos hb (Nat.two_pow_pos _))]
  rcases hnear.targetExponent hc hb hv he with htarget | ⟨htarget, hexp, rfl, hlow⟩
  · rw [htarget] at hw ⊢
    rw [hnear.roundHalfEven (Nat.mul_pos hb (Nat.two_pow_pos _)) hw, hc.shift]
  · have hleast := hc.least
    rw [htarget] at hw ⊢
    rw [hnear.roundHalfEven_below (Nat.mul_pos hb (Nat.two_pow_pos _)) hexp hlow hw, shift_carry (by omega)]

/-! ### The operations -/

theorem mul_near {m₁ m₂ : Nat} {e₁ e₂ : Int} (h₁ : 0 < m₁) (h₂ : 0 < m₂) (hc : Canonical mant exp)
    (hnear : Near mant exp (m₁ * 2 ^ e₁ * (m₂ * 2 ^ e₂))) (hlong : 2 ^ 52 ≤ m₁ * m₂) :
    UnpackedFloat.mul Format.binary64 (.finite .positive m₁ e₁ h₁) (.finite .positive m₂ e₂ h₂) =
      .finite .positive mant exp hc.pos := by
  have hlog : 52 ≤ (m₁ * m₂).log2 := (Nat.le_log2 (Nat.ne_of_gt (Nat.mul_pos h₁ h₂))).mpr hlong
  have htarget : e₁ + e₂ ≤ Format.binary64.targetExponent (totalExponent (m₁ * m₂ / 1) (e₁ + e₂)) := by
    rw [targetExponent_eq, Nat.div_one, totalExponent]
    omega
  have hv : (m₁ * 2 ^ e₁ * (m₂ * 2 ^ e₂) : ℚ) = ((m₁ * m₂ : Nat) : ℚ) / (1 : Nat) * 2 ^ (e₁ + e₂) := by
    rw [zpow_add₀ (by norm_num)]
    push_cast
    ring
  have hround := roundWithAccuracy_near (s := .positive) hc hnear Nat.one_pos hv htarget
  rw [Nat.div_one, Nat.mod_one] at hround
  exact hround

theorem div_near {m₁ m₂ : Nat} {e₁ e₂ : Int} (h₁ : 0 < m₁) (h₂ : 0 < m₂) (hc : Canonical mant exp)
    (hnear : Near mant exp (m₁ * 2 ^ e₁ / (m₂ * 2 ^ e₂))) :
    UnpackedFloat.div Format.binary64 (.finite .positive m₁ e₁ h₁) (.finite .positive m₂ e₂ h₂) =
      .finite .positive mant exp hc.pos := by
  have h₂' : (0 : ℚ) < m₂ := Nat.cast_pos.mpr h₂
  -- the exponent at which the quotient is taken, and by how much the numerator is shifted for it
  generalize ht : min (e₁ - e₂) (Format.binary64.targetExponent (totalExponent m₁ e₁ - totalExponent m₂ e₂)) = t
  have hshift : ((e₁ - e₂ - t).toNat : Int) = e₁ - e₂ - t := by omega
  have hv : (m₁ * 2 ^ e₁ / (m₂ * 2 ^ e₂) : ℚ) = ((m₁ <<< (e₁ - e₂ - t).toNat : Nat) : ℚ) / m₂ * 2 ^ t := by
    have hpower : (2 : ℚ) ^ e₁ = 2 ^ (e₁ - e₂ - t).toNat * 2 ^ t * 2 ^ e₂ := by
      rw [← zpow_natCast, ← zpow_add₀ (by norm_num), ← zpow_add₀ (by norm_num), hshift]
      congr 1
      omega
    have hne := (two_zpow_pos e₂).ne'
    rw [hpower, Nat.shiftLeft_eq]
    push_cast
    field_simp
  have htarget : t ≤ Format.binary64.targetExponent (totalExponent (m₁ <<< (e₁ - e₂ - t).toNat / m₂) t) := by
    have habove := lt_two_zpow_total h₂ hv
    have hnum : (2 : ℚ) ^ (totalExponent m₁ e₁ - 1) ≤ m₁ * 2 ^ e₁ := by
      have h := two_zpow_total_le Nat.one_pos (by rw [Nat.div_one]; exact Nat.ne_of_gt h₁)
        (show (m₁ * 2 ^ e₁ : ℚ) = (m₁ : ℚ) / (1 : Nat) * 2 ^ e₁ by simp)
      rwa [Nat.div_one] at h
    have hden : (m₂ * 2 ^ e₂ : ℚ) < 2 ^ totalExponent m₂ e₂ := by
      have h := lt_two_zpow_total Nat.one_pos (show (m₂ * 2 ^ e₂ : ℚ) = (m₂ : ℚ) / (1 : Nat) * 2 ^ e₂ by simp)
      rwa [Nat.div_one] at h
    have hbelow : (2 : ℚ) ^ (totalExponent m₁ e₁ - 1 - totalExponent m₂ e₂) < m₁ * 2 ^ e₁ / (m₂ * 2 ^ e₂) := by
      rw [zpow_sub₀ (by norm_num), div_lt_div_iff₀ (two_zpow_pos _) (mul_pos h₂' (two_zpow_pos _))]
      calc (2 : ℚ) ^ (totalExponent m₁ e₁ - 1) * (m₂ * 2 ^ e₂)
          < 2 ^ (totalExponent m₁ e₁ - 1) * 2 ^ totalExponent m₂ e₂ :=
            mul_lt_mul_of_pos_left hden (two_zpow_pos _)
        _ ≤ m₁ * 2 ^ e₁ * 2 ^ totalExponent m₂ e₂ := mul_le_mul_of_nonneg_right hnum (two_zpow_pos _).le
    have hlt := lt_of_two_zpow_lt (hbelow.trans habove)
    rw [targetExponent_eq] at ht ⊢
    omega
  have hround := roundWithAccuracy_near (s := .positive) hc hnear h₂ hv htarget
  simp only [UnpackedFloat.div, divCore, ht]
  exact hround

/-! ### Floats taken apart -/

section Fields

variable {b : BitVec Format.binary64.numBits}

theorem unpackExponent_toNat : (unpackExponent b).toNat = b.toNat / 2 ^ 52 % 2 ^ 11 := by
  rw [unpackExponent, BitVec.toNat_cast, BitVec.extractLsb_toNat, Nat.shiftRight_eq_div_pow]
  rfl

theorem unpackMantissa_toNat : (unpackMantissa b).toNat = b.toNat % 2 ^ 52 := by
  rw [unpackMantissa_def, BitVec.extractLsb'_toNat, Nat.shiftRight_zero]

theorem unpackSign_toNat : (unpackSign b).toNat = b.toNat / 2 ^ 63 := by
  have hlt : b.toNat < 2 ^ 64 := b.isLt
  rw [unpackSign, BitVec.toNat_cast, BitVec.extractLsb_toNat, Nat.shiftRight_eq_div_pow]
  change b.toNat / 2 ^ 63 % 2 ^ 1 = _
  omega

theorem unpackExponent_eq_ones : unpackExponent b = -1#11 ↔ (unpackExponent b).toNat = 2047 :=
  BitVec.toNat_inj.symm

theorem unpackExponent_eq_zero : unpackExponent b = 0#11 ↔ (unpackExponent b).toNat = 0 :=
  BitVec.toNat_inj.symm

theorem unpackMantissa_eq_zero : unpackMantissa b = 0#52 ↔ (unpackMantissa b).toNat = 0 :=
  BitVec.toNat_inj.symm

theorem unpack_special (h : (unpackExponent b).toNat = 2047) : UnpackedFloat.unpack Format.binary64 b =
    if (unpackMantissa b).toNat = 0 then .infinity (.ofBitVec (unpackSign b)) else .notANumber := by
  have hfull := unpackExponent_eq_ones.mpr h
  by_cases hm : (unpackMantissa b).toNat = 0
  · rw [UnpackedFloat.unpack, if_pos hfull, if_pos (unpackMantissa_eq_zero.mpr hm), if_pos hm]
  · rw [UnpackedFloat.unpack, if_pos hfull, if_neg (mt unpackMantissa_eq_zero.mp hm), if_neg hm]

theorem unpack_subnormal (h : (unpackExponent b).toNat = 0) : UnpackedFloat.unpack Format.binary64 b =
    if hm : (unpackMantissa b).toNat = 0 then .zero (.ofBitVec (unpackSign b))
    else .finite (.ofBitVec (unpackSign b)) (unpackMantissa b).toNat (-1074) (Nat.pos_of_ne_zero hm) := by
  have hfull : unpackExponent b ≠ -1#11 := fun h' => by
    rw [unpackExponent_eq_ones.mp h'] at h
    cases h
  have hzero := unpackExponent_eq_zero.mpr h
  by_cases hm : (unpackMantissa b).toNat = 0
  · rw [UnpackedFloat.unpack, if_neg hfull, if_pos hzero, dif_pos (unpackMantissa_eq_zero.mpr hm), dif_pos hm]
  · rw [UnpackedFloat.unpack, if_neg hfull, if_pos hzero, dif_neg (mt unpackMantissa_eq_zero.mp hm), dif_neg hm]
    simp only [h]
    rfl

theorem toNat_one_append (v : BitVec 52) : (1#1 ++ v).toNat = 2 ^ 52 + v.toNat := by
  rw [BitVec.toNat_append, ← Nat.shiftLeft_add_eq_or_of_lt v.isLt]
  rfl

theorem unpack_normal (hfull : (unpackExponent b).toNat ≠ 2047) (hzero : (unpackExponent b).toNat ≠ 0) :
    UnpackedFloat.unpack Format.binary64 b = .finite (.ofBitVec (unpackSign b))
      (2 ^ 52 + (unpackMantissa b).toNat) ((unpackExponent b).toNat - 1075) (by positivity) := by
  rw [UnpackedFloat.unpack, if_neg (mt unpackExponent_eq_ones.mp hfull),
    if_neg (mt unpackExponent_eq_zero.mp hzero)]
  simp only [finite.injEq, true_and]
  exact ⟨toNat_one_append _, rfl⟩

end Fields

theorem Canonical.unpack_pack (hc : Canonical mant exp) :
    (Float.Model.pack (.finite s mant exp hc.pos)).unpack = .finite s mant exp hc.pos := by
  have hlt := hc.lt
  have hleast := hc.least
  have hmost := hc.most
  have hlog : mant.log2 = 52 ↔ 2 ^ 52 ≤ mant := by
    rw [Nat.log2_eq_iff (Nat.ne_of_gt hc.pos)]
    exact ⟨fun h => h.1, fun h => ⟨h, hlt⟩⟩
  have hinrange : ¬ 2 ^ 11 ≤ (exp + 1023 + 52).toNat + 1 := by omega
  have hdigits : (BitVec.ofNat 52 mant).toNat = mant % 2 ^ 52 := BitVec.toNat_ofNat ..
  have hexponent : (BitVec.ofNat 11 (exp + 1023 + 52).toNat).toNat = (exp + 1023 + 52).toNat := by
    rw [BitVec.toNat_ofNat, Nat.mod_eq_of_lt (by omega)]
  by_cases hnormal : 2 ^ 52 ≤ mant
  · have hpack : UnpackedFloat.pack Format.binary64 (.finite s mant exp hc.pos) =
        packComponents Format.binary64 s (BitVec.ofNat 11 (exp + 1023 + 52).toNat) (BitVec.ofNat 52 mant) := by
      rw [UnpackedFloat.pack]
      exact (if_neg hinrange).trans (if_pos (congrArg (· + 1) (hlog.mpr hnormal)))
    have hfull : (BitVec.ofNat 11 (exp + 1023 + 52).toNat).toNat ≠ 2047 := by omega
    have hzero : (BitVec.ofNat 11 (exp + 1023 + 52).toNat).toNat ≠ 0 := by omega
    change UnpackedFloat.unpack Format.binary64 (UnpackedFloat.pack Format.binary64 _) = _
    rw [hpack, unpack_normal (by rwa [unpackExponent_packComponents]) (by rwa [unpackExponent_packComponents])]
    simp only [unpackExponent_packComponents, unpackMantissa_packComponents, unpackSign_packComponents,
      Sign.ofBitVec_toBitVec, finite.injEq, true_and]
    exact ⟨by omega, by omega⟩
  · have hexp := hc.normal.resolve_right hnormal
    have hpack : UnpackedFloat.pack Format.binary64 (.finite s mant exp hc.pos) =
        packComponents Format.binary64 s (0#11) (BitVec.ofNat 52 mant) := by
      rw [UnpackedFloat.pack]
      exact (if_neg hinrange).trans (if_neg fun h => hnormal (hlog.mp (Nat.succ.inj h)))
    have hmant : (BitVec.ofNat 52 mant).toNat = mant := by omega
    change UnpackedFloat.unpack Format.binary64 (UnpackedFloat.pack Format.binary64 _) = _
    rw [hpack, unpack_subnormal (by rw [unpackExponent_packComponents]; rfl)]
    simp only [unpackMantissa_packComponents, unpackSign_packComponents, Sign.ofBitVec_toBitVec, hmant, hexp]
    exact dif_neg (Nat.ne_of_gt hc.pos)

def signOf (negative : Bool) : Sign := if negative then .negative else .positive

def bitsOf (x : Float) : BitVec Format.binary64.numBits := x.toModel.toBits.toBitVec

theorem ofBitVec_unpackSign (x : Float) :
    Sign.ofBitVec (unpackSign (bitsOf x)) = signOf (x.toBits.toNat / twoTo 63 == 1) := by
  have hbits : (unpackSign (bitsOf x)).toNat = x.toBits.toNat / 2 ^ 63 := unpackSign_toNat
  have hlt := x.toBits.toNat_lt
  have htwo : twoTo 63 = 2 ^ 63 := rfl
  have hzero : unpackSign (bitsOf x) = 0#1 ↔ x.toBits.toNat / 2 ^ 63 = 0 := by
    rw [← BitVec.toNat_inj, hbits]
    rfl
  rw [Sign.ofBitVec, signOf, htwo]
  by_cases h : x.toBits.toNat / 2 ^ 63 = 0
  · rw [if_pos (hzero.mpr h), h]
    rfl
  · have hone : x.toBits.toNat / 2 ^ 63 = 1 := by omega
    rw [if_neg (mt hzero.mp h), hone]
    rfl

/-- What a float denotes, as the number that is calculated with. -/
def Binary.Unpacks : Binary → UnpackedFloat → Prop
  | .nan, u => u = .notANumber
  | .infinite negative, u => u = .infinity (signOf negative)
  | .finite negative mant exp, u => (mant = 0 ∧ u = .zero (signOf negative)) ∨
      ∃ hc : Canonical mant exp, u = .finite (signOf negative) mant exp hc.pos

theorem ofFloat_unpacks (x : Float) : (Binary.ofFloat x).Unpacks x.toModel.unpack := by
  have hexponent : (unpackExponent (bitsOf x)).toNat = x.toBits.toNat / hiddenBit % 2048 :=
    unpackExponent_toNat
  have hmantissa : (unpackMantissa (bitsOf x)).toNat = x.toBits.toNat % hiddenBit :=
    unpackMantissa_toNat
  have hlt : x.toBits.toNat % hiddenBit < 2 ^ 52 := Nat.mod_lt _ (by decide)
  have hbound : x.toBits.toNat / hiddenBit % 2048 < 2048 := Nat.mod_lt _ (by decide)
  have hsign := ofBitVec_unpackSign x
  have hmodel : x.toModel.unpack = UnpackedFloat.unpack Format.binary64 (bitsOf x) := rfl
  have hhidden : hiddenBit = 2 ^ 52 := rfl
  simp only [Binary.ofFloat, beq_iff_eq]
  split
  · next hfull =>
    rw [hmodel, unpack_special (hexponent.trans hfull), hmantissa, hsign]
    split
    · exact rfl
    · exact rfl
  · next hfull =>
    split
    · next hzero =>
      rw [hmodel, unpack_subnormal (hexponent.trans hzero)]
      by_cases hm : (unpackMantissa (bitsOf x)).toNat = 0
      · rw [dif_pos hm, hsign]
        exact .inl ⟨hmantissa.symm.trans hm, rfl⟩
      · rw [dif_neg hm]
        simp only [hmantissa, hsign] at hm ⊢
        exact .inr ⟨⟨Nat.pos_of_ne_zero hm, by omega, by decide, by decide, .inl rfl⟩, rfl⟩
    · next hzero =>
      rw [hmodel, unpack_normal (by rwa [hexponent]) (by rwa [hexponent])]
      simp only [hmantissa, hexponent, hsign]
      exact .inr ⟨⟨by omega, by omega, by omega, by omega, .inr (by omega)⟩, rfl⟩

theorem eq_of_unpack_eq {x y : Float} (h : x.toModel.unpack = y.toModel.unpack) : x = y := by
  have hbits : bitsOf x = bitsOf y :=
    (unpack_inj_of_valid x.toModel.valid y.toModel.valid).mp h
  obtain ⟨⟨xb, xv⟩⟩ := x
  obtain ⟨⟨yb, yv⟩⟩ := y
  obtain rfl : xb = yb := UInt64.toBitVec_inj.mp hbits
  rfl

/-! ### Decimals -/

theorem Near.self (mant : Nat) (exp : Int) : Near mant exp (mant * 2 ^ exp) := by
  have hpos := two_zpow_pos exp
  have hgap := gap_pos mant exp
  have hlow : (mant - gap mant exp) * 2 ^ exp < mant * 2 ^ exp := mul_lt_mul_of_pos_right (by linarith) hpos
  have hhigh : (mant : ℚ) * 2 ^ exp < (mant + 1 / 2) * 2 ^ exp := mul_lt_mul_of_pos_right (by linarith) hpos
  exact ⟨hlow.le, hhigh.le, fun _ => ⟨hlow, hhigh⟩⟩

def IsWholeFloat (x : Float) (n : Nat) : Prop := ∃ mant exp, ∃ hpos : 0 < mant,
  x.toModel.unpack = .finite .positive mant exp hpos ∧ (mant * 2 ^ exp : ℚ) = n ∧ 2 ^ 52 ≤ mant

section Whole

variable {n : Nat} (hpos : 0 < n) (hlt : n < 2 ^ 53)
include hpos hlt

theorem canonical_whole : Canonical (n * 2 ^ (52 - n.log2)) ((n.log2 : Int) - 52) := by
  have hlog : n.log2 ≤ 52 := log2_le_of_lt (k := 52) hlt
  have hshift : (2 : Nat) ^ n.log2 * 2 ^ (52 - n.log2) = 2 ^ 52 := by
    rw [← Nat.pow_add]
    congr 1
    omega
  have htwice : (2 : Nat) ^ (n.log2 + 1) * 2 ^ (52 - n.log2) = 2 ^ 53 := by
    rw [Nat.pow_succ', Nat.mul_assoc, hshift]
    rfl
  refine ⟨Nat.mul_pos hpos (Nat.two_pow_pos _), ?_, by omega, by omega, .inr ?_⟩
  · exact htwice ▸ Nat.mul_lt_mul_of_pos_right Nat.lt_log2_self (Nat.two_pow_pos _)
  · exact hshift ▸ Nat.mul_le_mul_right _ (Nat.log2_self_le (Nat.ne_of_gt hpos))

omit hpos in
theorem whole_value : ((n * 2 ^ (52 - n.log2) : Nat) * 2 ^ ((n.log2 : Int) - 52) : ℚ) = n := by
  have hlog : n.log2 ≤ 52 := log2_le_of_lt (k := 52) hlt
  have hpower : (2 : ℚ) ^ (52 - n.log2) * 2 ^ ((n.log2 : Int) - 52) = 1 := by
    have hsum : ((52 - n.log2 : Nat) : Int) + ((n.log2 : Int) - 52) = 0 := by omega
    rw [← zpow_natCast, ← zpow_add₀ (by norm_num), hsum, zpow_zero]
  rw [Nat.cast_mul, Nat.cast_pow, Nat.cast_ofNat, mul_assoc, hpower, mul_one]

theorem ofNat_whole : UnpackedFloat.ofNat Format.binary64 n =
    .finite .positive (n * 2 ^ (52 - n.log2)) ((n.log2 : Int) - 52) (canonical_whole hpos hlt).pos := by
  have hc := canonical_whole hpos hlt
  have hlog : n.log2 ≤ 52 := log2_le_of_lt (k := 52) hlt
  have htarget : Format.binary64.targetExponent (totalExponent n 0) = (n.log2 : Int) - 52 := by
    rw [targetExponent_eq, totalExponent]
    omega
  have hamount : ((0 : Int) - ((n.log2 : Int) - 52)).toNat = 52 - n.log2 := by omega
  have hexponent : (0 : Int) - (52 - n.log2 : Nat) = (n.log2 : Int) - 52 := by omega
  have hstay : (n.log2 : Int) - 52 ≤ Format.binary64.targetExponent
      (totalExponent (n * 2 ^ (52 - n.log2) / 1) ((n.log2 : Int) - 52)) := by
    have h52 := (Nat.le_log2 (Nat.ne_of_gt hc.pos)).mpr (hc.normal.resolve_left (by omega))
    rw [targetExponent_eq, Nat.div_one, totalExponent]
    omega
  have hround := roundWithAccuracy_near (s := .positive) hc (Near.self _ _) Nat.one_pos (by simp) hstay
  rw [Nat.div_one, Nat.mod_one] at hround
  rw [UnpackedFloat.ofNat, UnpackedFloat.ofInt, UnpackedFloat.normalize, Int.compare_eq_gt.mpr (by omega)]
  simp only [UnpackedFloat.round, Int.toNat_natCast, htarget, decreaseExponent, hamount, hexponent,
    Nat.shiftLeft_eq]
  exact hround

theorem toFloat_whole : IsWholeFloat n.toUInt64.toFloat n := by
  have hc := canonical_whole hpos hlt
  have hlog : n.log2 ≤ 52 := log2_le_of_lt (k := 52) hlt
  have hword : n.toUInt64.toNat = n := Nat.mod_eq_of_lt (by omega)
  refine ⟨_, _, hc.pos, ?_, whole_value hlt, hc.normal.resolve_left (by omega)⟩
  rw [← hc.unpack_pack, ← ofNat_whole hpos hlt]
  change (Float.Model.pack (UnpackedFloat.ofNat Format.binary64 n.toUInt64.toNat)).unpack = _
  rw [hword]

end Whole

def isPower (x : Float) (k : Nat) : Bool :=
  match x.toModel.unpack with
  | .finite .positive m e _ => 2 ^ 52 ≤ m && m * 2 ^ e.toNat == 10 ^ k * 2 ^ (-e).toNat
  | _ => false

theorem isPower_table : ∀ k : Fin 23, isPower Float.exactlyRepresentablePowersOfTen[k] k = true := by
  decide +kernel

theorem powerOfTen_whole {k : Nat} (hk : k < Float.exactlyRepresentablePowersOfTen.size) :
    IsWholeFloat Float.exactlyRepresentablePowersOfTen[k] (10 ^ k) := by
  have hpower : isPower Float.exactlyRepresentablePowersOfTen[k] k = true := isPower_table ⟨k, hk⟩
  rw [isPower] at hpower
  split at hpower
  · next m e hm heq =>
    simp only [Bool.and_eq_true, decide_eq_true_eq, beq_iff_eq] at hpower
    refine ⟨m, e, hm, heq, ?_, hpower.1⟩
    have hcast : (m * 2 ^ e.toNat : ℚ) = 10 ^ k * 2 ^ (-e).toNat := by exact_mod_cast hpower.2
    have hsplit : (2 : ℚ) ^ e * 2 ^ (-e).toNat = 2 ^ e.toNat := by
      rw [← zpow_natCast, ← zpow_natCast, ← zpow_add₀ (by norm_num)]
      congr 1
      omega
    have hne : (2 : ℚ) ^ (-e).toNat ≠ 0 := by positivity
    refine mul_right_cancel₀ hne ?_
    rw [mul_assoc, hsplit, hcast]
    push_cast
    ring
  · cases hpower

section Scientific

theorem mul_unpack {x y : Float} {u w : UnpackedFloat} (hc : Canonical mant exp) (hx : x.toModel.unpack = u)
    (hy : y.toModel.unpack = w) (h : UnpackedFloat.mul Format.binary64 u w = .finite .positive mant exp hc.pos) :
    (x * y).toModel.unpack = .finite .positive mant exp hc.pos := by
  change (Float.Model.pack (UnpackedFloat.mul Format.binary64 x.toModel.unpack y.toModel.unpack)).unpack = _
  rw [hx, hy, h, hc.unpack_pack]

theorem div_unpack {x y : Float} {u w : UnpackedFloat} (hc : Canonical mant exp) (hx : x.toModel.unpack = u)
    (hy : y.toModel.unpack = w) (h : UnpackedFloat.div Format.binary64 u w = .finite .positive mant exp hc.pos) :
    (x / y).toModel.unpack = .finite .positive mant exp hc.pos := by
  change (Float.Model.pack (UnpackedFloat.div Format.binary64 x.toModel.unpack y.toModel.unpack)).unpack = _
  rw [hx, hy, h, hc.unpack_pack]

variable {m k : Nat} (hc : Canonical mant exp) (hpos : 0 < m)
include hpos

theorem ofScientific_product (hk : k ≤ 2048) (hnear : Near mant exp (m * 10 ^ k)) :
    (Float.ofScientific m false k).toModel.unpack = .finite .positive mant exp hc.pos := by
  by_cases hfast : m < 2 ^ 53 ∧ k ≤ 22
  · obtain ⟨m₁, e₁, h₁, hunpack₁, hvalue₁, hlong₁⟩ := toFloat_whole hpos hfast.1
    obtain ⟨m₂, e₂, h₂, hunpack₂, hvalue₂, _⟩ := powerOfTen_whole (Nat.lt_succ_of_le hfast.2)
    have hproduct := mul_near h₁ h₂ hc (by rwa [hvalue₁, hvalue₂, Nat.cast_pow])
      (hlong₁.trans (Nat.le_mul_of_pos_right m₁ h₂))
    rw [Float.ofScientific, dif_pos hfast]
    exact mul_unpack hc hunpack₁ hunpack₂ hproduct
  · have hvalue : ((m <<< 53 : Nat) * 2 ^ (-53 : Int) * ((10 ^ k : Nat) * 2 ^ (0 : Int)) : ℚ) = m * 10 ^ k := by
      rw [Nat.shiftLeft_eq]
      push_cast
      ring
    have hlong : 2 ^ 52 ≤ m <<< 53 * 10 ^ k := by
      rw [Nat.shiftLeft_eq]
      calc 2 ^ 52 ≤ 1 * 2 ^ 53 * 1 := by decide
        _ ≤ m * 2 ^ 53 * 10 ^ k := Nat.mul_le_mul (Nat.mul_le_mul_right _ hpos) (Nat.one_le_pow _ _ (by decide))
    have hproduct := mul_near (Nat.shiftLeft_pos_iff.mpr hpos) (Nat.pow_pos (by decide)) hc
      (hvalue ▸ hnear) hlong
    have hhigh : ¬ (k : Int) > 2 ^ Format.binary64.exponentBits := by
      change ¬ (k : Int) > 2048
      omega
    have hlow : ¬ (k : Int) < -(2 ^ Format.binary64.exponentBits + (m.log2 : Int)) := by
      change ¬ (k : Int) < -(2048 + (m.log2 : Int))
      omega
    rw [Float.ofScientific, dif_neg hfast]
    change (Float.Model.pack (UnpackedFloat.ofScientific Format.binary64 m (k : Int))).unpack = _
    rw [UnpackedFloat.ofScientific, dif_neg (Nat.ne_of_gt hpos), if_neg hhigh, if_neg hlow,
      if_pos (Int.natCast_nonneg k)]
    simp only [Int.toNat_natCast]
    exact (congrArg (fun u => (Float.Model.pack u).unpack) hproduct).trans hc.unpack_pack

theorem ofScientific_quotient (hkpos : 0 < k) (hk : k ≤ 2048 + m.log2) (hnear : Near mant exp (m / 10 ^ k)) :
    (Float.ofScientific m true k).toModel.unpack = .finite .positive mant exp hc.pos := by
  by_cases hfast : m < 2 ^ 53 ∧ k ≤ 22
  · obtain ⟨m₁, e₁, h₁, hunpack₁, hvalue₁, _⟩ := toFloat_whole hpos hfast.1
    obtain ⟨m₂, e₂, h₂, hunpack₂, hvalue₂, _⟩ := powerOfTen_whole (Nat.lt_succ_of_le hfast.2)
    have hquotient := div_near h₁ h₂ hc (by rwa [hvalue₁, hvalue₂, Nat.cast_pow])
    rw [Float.ofScientific, dif_pos hfast]
    exact div_unpack hc hunpack₁ hunpack₂ hquotient
  · have hvalue : ((m : Nat) * 2 ^ (0 : Int) / ((10 ^ k : Nat) * 2 ^ (0 : Int)) : ℚ) = m / 10 ^ k := by
      push_cast
      ring
    have hquotient := div_near hpos (Nat.pow_pos (by decide)) hc (hvalue ▸ hnear)
    have hexponent : Int.negOfNat k = -(k : Int) := Int.negOfNat_eq
    have hhigh : ¬ -(k : Int) > 2 ^ Format.binary64.exponentBits := by
      change ¬ -(k : Int) > 2048
      omega
    have hlow : ¬ -(k : Int) < -(2 ^ Format.binary64.exponentBits + (m.log2 : Int)) := by
      change ¬ -(k : Int) < -(2048 + (m.log2 : Int))
      omega
    have hpower : (- -(k : Int)).toNat = k := by omega
    rw [Float.ofScientific, dif_neg hfast]
    change (Float.Model.pack (UnpackedFloat.ofScientific Format.binary64 m (Int.negOfNat k))).unpack = _
    rw [hexponent, UnpackedFloat.ofScientific, dif_neg (Nat.ne_of_gt hpos), if_neg hhigh, if_neg hlow,
      if_neg (by omega)]
    simp only [hpower]
    exact (congrArg (fun u => (Float.Model.pack u).unpack) hquotient).trans hc.unpack_pack

end Scientific

/-! ### The range of floats -/

/-- Ninety-three binary digits are hardly less than twenty-eight decimal ones. -/
theorem two_pow_lt {q r n : Nat} (hr : 2 ^ r < 10 ^ n) : 2 ^ (93 * q + r) < 10 ^ (28 * q + n) := by
  calc 2 ^ (93 * q + r) = (2 ^ 93) ^ q * 2 ^ r := by rw [Nat.pow_add, Nat.pow_mul]
    _ ≤ (10 ^ 28) ^ q * 2 ^ r := Nat.mul_le_mul_right _ (Nat.pow_le_pow_left (by decide) q)
    _ < (10 ^ 28) ^ q * 10 ^ n := Nat.mul_lt_mul_of_pos_left hr (by positivity)
    _ = 10 ^ (28 * q + n) := by rw [Nat.pow_add, Nat.pow_mul]

theorem two_zpow_lt {q r n : Nat} (hr : 2 ^ r < 10 ^ n) :
    (2 : ℚ) ^ ((93 * q + r : Nat) : Int) < 10 ^ ((28 * q + n : Nat) : Int) := by
  rw [zpow_natCast, zpow_natCast]
  exact_mod_cast two_pow_lt hr

theorem two_zpow_1024_lt : (2 : ℚ) ^ (1024 : Int) < 10 ^ (309 : Int) :=
  two_zpow_lt (q := 11) (r := 1) (n := 1) (by decide)

theorem ten_zpow_lt_least : (10 : ℚ) ^ (-324 : Int) < 2 ^ (-1075 : Int) := by
  have h : (2 : ℚ) ^ (1075 : Int) < 10 ^ (324 : Int) := two_zpow_lt (q := 11) (r := 52) (n := 16) (by decide)
  rw [zpow_neg, zpow_neg]
  exact inv_strictAnti₀ (two_zpow_pos _) h

theorem lt_of_ten_zpow_lt {m n : Int} (h : (10 : ℚ) ^ m < 10 ^ n) : m < n :=
  (zpow_lt_zpow_iff_right₀ (by norm_num)).mp h

theorem Near.least_le (hc : Canonical mant exp) (hnear : Near mant exp v) : 2 ^ (-1075 : Int) ≤ v := by
  have hmant : (1 : ℚ) ≤ mant := by exact_mod_cast hc.pos
  have hgap := gap_le mant exp
  have hpower : (2 : ℚ) ^ (-1074 : Int) ≤ 2 ^ exp := zpow_le_zpow_right₀ (by norm_num) hc.least
  calc (2 : ℚ) ^ (-1075 : Int) = 1 / 2 * 2 ^ (-1074 : Int) := by
        rw [show (-1075 : Int) = -1074 - 1 from rfl, zpow_sub_one₀ (by norm_num)]
        ring
    _ ≤ 1 / 2 * 2 ^ exp := mul_le_mul_of_nonneg_left hpower (by norm_num)
    _ ≤ (mant - gap mant exp) * 2 ^ exp := mul_le_mul_of_nonneg_right (by linarith) (two_zpow_pos exp).le
    _ ≤ v := hnear.low

theorem Near.lt_most (hc : Canonical mant exp) (hnear : Near mant exp v) : v < 2 ^ (1024 : Int) :=
  lt_of_lt_of_le (hnear.lt_top hc) (zpow_le_zpow_right₀ (by norm_num) (by have := hc.most; omega))

theorem length_toString_pos (m : Nat) : 0 < (toString m).length := by
  rw [Nat.toString_eq_ofList_toDigits, String.length_ofList]
  exact List.length_pos_iff.mpr Nat.toDigits_ne_nil

theorem length_toString_bounds {m : Nat} (hpos : 0 < m) :
    10 ^ ((toString m).length - 1) ≤ m ∧ m < 10 ^ (toString m).length := by
  have hsize := length_toString_pos m
  have hlength : (toString m).length = (Nat.toDigits 10 m).length := by
    rw [Nat.toString_eq_ofList_toDigits, String.length_ofList]
  generalize (toString m).length = size at hsize hlength ⊢
  refine ⟨?_, (Nat.length_toDigits_le_iff (by decide) hsize).mp hlength.ge⟩
  rcases Nat.eq_or_lt_of_le hsize with hone | hmore
  · rw [← hone]
    exact hpos
  · by_contra hlt
    have := (Nat.length_toDigits_le_iff (b := 10) (by decide) (Nat.sub_pos_of_lt hmore)).mpr (not_le.mp hlt)
    omega

theorem Near.decimal_range {d : Nat} {p : Int} (hc : Canonical mant exp) (hpos : 0 < d)
    (hnear : Near mant exp (d * 10 ^ p)) :
    ((toString d).length : Int) + p ≤ 309 ∧ -324 < ((toString d).length : Int) + p := by
  have hsize := length_toString_pos d
  obtain ⟨hlower, hupper⟩ := length_toString_bounds hpos
  generalize (toString d).length = size at hsize hlower hupper ⊢
  have hp : (0 : ℚ) < 10 ^ p := zpow_pos (by norm_num) p
  constructor
  · have hle : (10 : ℚ) ^ ((size : Int) - 1 + p) ≤ d * 10 ^ p := by
      rw [zpow_add₀ (by norm_num)]
      refine mul_le_mul_of_nonneg_right ?_ hp.le
      rw [show (size : Int) - 1 = ((size - 1 : Nat) : Int) by omega, zpow_natCast]
      exact_mod_cast hlower
    have := lt_of_ten_zpow_lt ((lt_of_le_of_lt hle (hnear.lt_most hc)).trans two_zpow_1024_lt)
    omega
  · have hlt : (d * 10 ^ p : ℚ) < 10 ^ ((size : Int) + p) := by
      rw [zpow_add₀ (by norm_num), zpow_natCast]
      refine mul_lt_mul_of_pos_right ?_ hp
      exact_mod_cast hupper
    exact lt_of_ten_zpow_lt (ten_zpow_lt_least.trans_le (hnear.least_le hc) |>.trans hlt)

theorem length_toString_le_log2 (d : Nat) : (toString d).length ≤ d.log2 + 1 := by
  rw [Nat.toString_eq_ofList_toDigits, String.length_ofList,
    Nat.length_toDigits_le_iff (by decide) (Nat.succ_pos _)]
  exact Nat.lt_of_lt_of_le Nat.lt_log2_self (Nat.pow_le_pow_left (by decide) _)

theorem neg_unpack {x : Float} (hc : Canonical mant exp)
    (hx : x.toModel.unpack = .finite .positive mant exp hc.pos) :
    (-x).toModel.unpack = .finite .negative mant exp hc.pos := by
  change (Float.Model.pack (UnpackedFloat.neg x.toModel.unpack)).unpack = _
  rw [hx]
  exact hc.unpack_pack

/-- A decimal near a float is read as it. -/
theorem floatOfDecimal_near {d : Nat} {p : Int} (hc : Canonical mant exp) (hpos : 0 < d)
    (hnear : Near mant exp (d * 10 ^ p)) (negative : Bool) :
    (floatOfDecimal negative d p).toModel.unpack = .finite (signOf negative) mant exp hc.pos := by
  obtain ⟨hmost, hleast⟩ := hnear.decimal_range hc hpos
  have hlength := length_toString_le_log2 d
  have hmagnitude : (if 0 ≤ p then Float.ofScientific d false p.toNat
      else Float.ofScientific d true (-p).toNat).toModel.unpack = .finite .positive mant exp hc.pos := by
    split
    · next hp =>
      refine ofScientific_product hc hpos (by omega) ?_
      rwa [← zpow_natCast, Int.toNat_of_nonneg hp]
    · next hp =>
      refine ofScientific_quotient hc hpos (by omega) (by omega) ?_
      rwa [← zpow_natCast, Int.toNat_of_nonneg (by omega), zpow_neg, div_inv_eq_mul]
  rw [floatOfDecimal]
  simp only [if_neg (show ¬(d == 0) = true by simpa using Nat.ne_of_gt hpos), if_neg (show
    ¬310 < ((toString d).length : Int) + p by omega), if_neg (show ¬((toString d).length : Int) + p < -330 by omega)]
  cases negative with
  | false => exact hmagnitude
  | true => exact neg_unpack hc hmagnitude

end JudgedLint.Decimal
