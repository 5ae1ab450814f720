import JudgedLint.Decimal.Shortest
import JudgedLint.Proofs.Decimal.Rounding

/-! The shortest decimal of a float is read back as the float: it was picked from the numbers near the float,
and one of seventeen digits is always among them. -/
namespace JudgedLint.Decimal

variable {mant d fuel used : Nat} {exp p : Int} {n : Neighbourhood}

theorem ratio_fst (mant : Nat) (exp : Int) : (ratio mant exp).1 = mant * (ratio 1 exp).1 := by
  rw [ratio, ratio]
  split
  · rw [Nat.one_mul]
  · rw [Nat.mul_one]

theorem ratio_snd (mant : Nat) (exp : Int) : (ratio mant exp).2 = (ratio 1 exp).2 := by
  rw [ratio, ratio]
  split <;> rfl

theorem ratio_one_pos (exp : Int) : 0 < (ratio 1 exp).1 ∧ 0 < (ratio 1 exp).2 := by
  rw [ratio]
  split
  · exact ⟨Nat.mul_pos Nat.one_pos (Nat.two_pow_pos _), Nat.one_pos⟩
  · exact ⟨Nat.one_pos, Nat.two_pow_pos _⟩

theorem ratio_one_value (exp : Int) : ((ratio 1 exp).1 : ℚ) / (ratio 1 exp).2 = 2 ^ exp := by
  rw [ratio]
  split
  · next hexp =>
    obtain ⟨k, rfl⟩ := Int.eq_ofNat_of_zero_le hexp
    simp [twoTo]
  · next hexp =>
    obtain ⟨k, hk⟩ := Int.eq_ofNat_of_zero_le (show 0 ≤ -exp by omega)
    obtain rfl : exp = -k := by omega
    simp [twoTo, zpow_neg]

theorem ten_zpow_of_nonneg (hp : 0 ≤ p) : (10 : ℚ) ^ p = 10 ^ p.toNat := by
  rw [← zpow_natCast, Int.toNat_of_nonneg hp]

theorem ten_zpow_of_neg (hp : p < 0) : (10 : ℚ) ^ p = (10 ^ (-p).toNat)⁻¹ := by
  rw [← zpow_natCast, Int.toNat_of_nonneg (by omega), zpow_neg, inv_inv]

def Neighbourhood.Has (n : Neighbourhood) (v : ℚ) : Prop :=
  if n.closed then (n.low : ℚ) / n.den ≤ v ∧ v ≤ (n.high : ℚ) / n.den
  else (n.low : ℚ) / n.den < v ∧ v < (n.high : ℚ) / n.den

theorem holds_iff (hden : 0 < n.den) : n.holds d p = true ↔ n.Has (d * 10 ^ p) := by
  have hden' : (0 : ℚ) < n.den := Nat.cast_pos.mpr hden
  -- both sides are compared over a common denominator
  have hcompare : ∃ x scale : Nat, 0 < scale ∧ (d * 10 ^ p * n.den : ℚ) = x / scale ∧
      n.holds d p = if n.closed then decide (n.low * scale ≤ x) && decide (x ≤ n.high * scale)
        else decide (n.low * scale < x) && decide (x < n.high * scale) := by
    by_cases hp : 0 ≤ p
    · refine ⟨d * 10 ^ p.toNat * n.den, 1, Nat.one_pos, ?_, ?_⟩
      · rw [ten_zpow_of_nonneg hp, Nat.cast_one, div_one]
        push_cast
        rfl
      · simp only [Neighbourhood.holds, if_pos hp, tenTo, Nat.pow_eq]
    · refine ⟨d * n.den, 10 ^ (-p).toNat, Nat.pow_pos (by decide), ?_, ?_⟩
      · rw [ten_zpow_of_neg (not_le.mp hp)]
        push_cast
        field_simp
      · simp only [Neighbourhood.holds, if_neg hp, tenTo, Nat.pow_eq]
  obtain ⟨x, scale, hscale, hx, hholds⟩ := hcompare
  have hscale' : (0 : ℚ) < scale := Nat.cast_pos.mpr hscale
  have hlow : ((n.low : ℚ) / n.den ≤ d * 10 ^ p ↔ n.low * scale ≤ x) ∧
      ((n.low : ℚ) / n.den < d * 10 ^ p ↔ n.low * scale < x) := by
    rw [div_le_iff₀ hden', div_lt_iff₀ hden', hx, le_div_iff₀ hscale', lt_div_iff₀ hscale']
    exact ⟨by exact_mod_cast Iff.rfl, by exact_mod_cast Iff.rfl⟩
  have hhigh : ((d * 10 ^ p : ℚ) ≤ n.high / n.den ↔ x ≤ n.high * scale) ∧
      ((d * 10 ^ p : ℚ) < n.high / n.den ↔ x < n.high * scale) := by
    rw [le_div_iff₀ hden', lt_div_iff₀ hden', hx, div_le_iff₀ hscale', div_lt_iff₀ hscale']
    exact ⟨by exact_mod_cast Iff.rfl, by exact_mod_cast Iff.rfl⟩
  rw [hholds, Neighbourhood.Has]
  split
  · rw [Bool.and_eq_true, decide_eq_true_eq, decide_eq_true_eq, hlow.1, hhigh.1]
  · rw [Bool.and_eq_true, decide_eq_true_eq, decide_eq_true_eq, hlow.2, hhigh.2]

section Binary

variable (mant : Nat) (exp : Int)

theorem ofBinary_den : (Neighbourhood.ofBinary mant exp).den = (ratio 1 (exp - 2)).2 :=
  ratio_snd mant (exp - 2)

/-- In units over the common denominator, a quarter of the last place is one. -/
theorem ofBinary_eq (hpos : 0 < mant) : Neighbourhood.ofBinary mant exp =
    ⟨4 * (mant * (ratio 1 (exp - 2)).1) - (if mant == hiddenBit && exp != -1074 then (ratio 1 (exp - 2)).1
        else 2 * (ratio 1 (exp - 2)).1), 4 * (mant * (ratio 1 (exp - 2)).1),
      4 * (mant * (ratio 1 (exp - 2)).1) + 2 * (ratio 1 (exp - 2)).1, (ratio 1 (exp - 2)).2,
      mant % 2 == 0⟩ := by
  have hunit : (ratio mant (exp - 2)).1 / mant = (ratio 1 (exp - 2)).1 := by
    rw [ratio_fst]
    exact Nat.mul_div_cancel_left _ hpos
  simp only [Neighbourhood.ofBinary, hunit]
  rw [ratio_fst, ratio_snd]

end Binary

theorem quarter_value (exp : Int) : ((ratio 1 (exp - 2)).1 : ℚ) / (ratio 1 (exp - 2)).2 = 2 ^ exp / 4 := by
  rw [ratio_one_value, zpow_sub₀ (by norm_num)]
  norm_num

theorem ofBinary_low (hpos : 0 < mant) :
    ((Neighbourhood.ofBinary mant exp).low : ℚ) / (Neighbourhood.ofBinary mant exp).den =
      (mant - gap mant exp) * 2 ^ exp := by
  have hquarter := quarter_value exp
  have hle : (ratio 1 (exp - 2)).1 ≤ mant * (ratio 1 (exp - 2)).1 := Nat.le_mul_of_pos_left _ hpos
  rw [ofBinary_eq mant exp hpos]
  simp only
  rw [gap]
  by_cases hgap : mant = hiddenBit ∧ exp ≠ -1074
  · rw [if_pos hgap, if_pos (by simpa using hgap), Nat.cast_sub (by omega)]
    push_cast
    rw [sub_div, mul_div_assoc, mul_div_assoc, hquarter]
    ring
  · rw [if_neg hgap, if_neg (by simpa using hgap), Nat.cast_sub (by omega)]
    push_cast
    rw [sub_div, mul_div_assoc, mul_div_assoc, mul_div_assoc, hquarter]
    ring

theorem ofBinary_value (hpos : 0 < mant) :
    ((Neighbourhood.ofBinary mant exp).value : ℚ) / (Neighbourhood.ofBinary mant exp).den = mant * 2 ^ exp := by
  rw [ofBinary_eq mant exp hpos]
  push_cast
  rw [mul_div_assoc, mul_div_assoc, quarter_value]
  ring

theorem ofBinary_high (hpos : 0 < mant) :
    ((Neighbourhood.ofBinary mant exp).high : ℚ) / (Neighbourhood.ofBinary mant exp).den =
      (mant + 1 / 2) * 2 ^ exp := by
  rw [ofBinary_eq mant exp hpos]
  push_cast
  rw [add_div, mul_div_assoc, mul_div_assoc, mul_div_assoc, quarter_value]
  ring

theorem ofBinary_den_pos (mant : Nat) (exp : Int) : 0 < (Neighbourhood.ofBinary mant exp).den := by
  rw [ofBinary_den]
  exact (ratio_one_pos _).2

theorem near_of_holds (hpos : 0 < mant) (h : (Neighbourhood.ofBinary mant exp).holds d p = true) :
    Near mant exp (d * 10 ^ p) := by
  have hclosed : (Neighbourhood.ofBinary mant exp).closed = (mant % 2 == 0) := rfl
  rw [holds_iff (ofBinary_den_pos mant exp), Neighbourhood.Has, hclosed, ofBinary_low hpos,
    ofBinary_high hpos] at h
  split at h
  · next heven =>
    refine ⟨h.1, h.2, fun hodd => ?_⟩
    rw [hodd] at heven
    cases heven
  · exact ⟨h.1.le, h.2.le, fun _ => h⟩

/-! ### Seventeen digits are enough -/

theorem pick?_holds (h : n.pick? p = some d) : n.holds d p = true := by
  simp only [Neighbourhood.pick?] at h
  split at h
  · next hboth =>
    rw [Bool.and_eq_true] at hboth
    split at h
    · cases h
      exact hboth.1
    · split at h
      · cases h
        exact hboth.2
      · split at h
        · cases h
          exact hboth.1
        · cases h
          exact hboth.2
  · split at h
    · next hlow =>
      cases h
      exact hlow
    · split at h
      · next hhigh =>
        cases h
        exact hhigh
      · cases h

theorem pick?_eq_none (h : n.pick? p = none) :
    n.holds (n.onGrid p).1 p = false ∧ n.holds ((n.onGrid p).1 + 1) p = false := by
  simp only [Neighbourhood.pick?] at h
  split at h
  · split at h
    · cases h
    · split at h <;> cases h
  · split at h
    · cases h
    · next hlow =>
      split at h
      · cases h
      · next hhigh => exact ⟨by simpa using hlow, by simpa using hhigh⟩

theorem onGrid_bounds (hden : 0 < n.den) (p : Int) : ((n.onGrid p).1 * 10 ^ p : ℚ) ≤ n.value / n.den ∧
    (n.value / n.den : ℚ) < ((n.onGrid p).1 + 1) * 10 ^ p := by
  have hden' : (0 : ℚ) < n.den := Nat.cast_pos.mpr hden
  have hfloor : ∃ num den : Nat, 0 < den ∧ (n.value / n.den : ℚ) = num / den * 10 ^ p ∧
      (n.onGrid p).1 = num / den := by
    by_cases hp : 0 ≤ p
    · refine ⟨n.value, n.den * 10 ^ p.toNat, Nat.mul_pos hden (Nat.pow_pos (by decide)), ?_, ?_⟩
      · rw [ten_zpow_of_nonneg hp]
        push_cast
        field_simp
      · simp only [Neighbourhood.onGrid, if_pos hp, tenTo, Nat.pow_eq]
    · refine ⟨n.value * 10 ^ (-p).toNat, n.den, hden, ?_, ?_⟩
      · rw [ten_zpow_of_neg (not_le.mp hp)]
        push_cast
        field_simp
      · simp only [Neighbourhood.onGrid, if_neg hp, tenTo, Nat.pow_eq]
  obtain ⟨num, den, hpos, hvalue, hlow⟩ := hfloor
  have hpos' : (0 : ℚ) < den := Nat.cast_pos.mpr hpos
  have hp : (0 : ℚ) < 10 ^ p := zpow_pos (by norm_num) p
  rw [hvalue, hlow]
  constructor
  · exact mul_le_mul_of_nonneg_right Nat.cast_div_le hp.le
  · refine mul_lt_mul_of_pos_right ?_ hp
    rw [div_lt_iff₀ hpos']
    exact_mod_cast (Nat.div_lt_iff_lt_mul hpos).mp (Nat.lt_succ_self (num / den))

/-- A grid with sixteen digits in front of the unit has a point near every float. -/
theorem pick?_ne_none (hc : Canonical mant exp) (hgrid : (10 : ℚ) ^ p * 10 ^ 16 ≤ mant * 2 ^ exp) :
    (Neighbourhood.ofBinary mant exp).pick? p ≠ none := by
  intro hnone
  obtain ⟨hlow, hhigh⟩ := pick?_eq_none hnone
  obtain ⟨hbelow, habove⟩ := onGrid_bounds (ofBinary_den_pos mant exp) p
  rw [ofBinary_value hc.pos] at hbelow habove
  generalize ((Neighbourhood.ofBinary mant exp).onGrid p).1 = low at hlow hhigh hbelow habove
  have hpos := two_zpow_pos exp
  have hgap := gap_pos mant exp
  have hlower : ((mant - gap mant exp) * 2 ^ exp : ℚ) < mant * 2 ^ exp :=
    mul_lt_mul_of_pos_right (by linarith) hpos
  have hupper : (mant * 2 ^ exp : ℚ) < (mant + 1 / 2) * 2 ^ exp := mul_lt_mul_of_pos_right (by linarith) hpos
  -- neither neighbour on the grid is near, so they are further apart than the ends
  have hleft : (low * 10 ^ p : ℚ) ≤ (mant - gap mant exp) * 2 ^ exp := by
    by_contra hlt
    rw [Bool.eq_false_iff] at hlow
    refine hlow ((holds_iff (ofBinary_den_pos mant exp)).mpr ?_)
    rw [Neighbourhood.Has, ofBinary_low hc.pos, ofBinary_high hc.pos]
    split
    · exact ⟨(not_le.mp hlt).le, (hbelow.trans_lt hupper).le⟩
    · exact ⟨not_le.mp hlt, hbelow.trans_lt hupper⟩
  have hright : ((mant + 1 / 2) * 2 ^ exp : ℚ) ≤ (low + 1) * 10 ^ p := by
    by_contra hlt
    rw [Bool.eq_false_iff] at hhigh
    refine hhigh ((holds_iff (ofBinary_den_pos mant exp)).mpr ?_)
    rw [Neighbourhood.Has, ofBinary_low hc.pos, ofBinary_high hc.pos]
    push_cast
    split
    · exact ⟨(hlower.trans habove).le, (not_le.mp hlt).le⟩
    · exact ⟨hlower.trans habove, not_le.mp hlt⟩
  have hwide : ((1 / 2 + gap mant exp) * 2 ^ exp : ℚ) ≤ 10 ^ p := by linarith
  have hmant : ((1 / 2 + gap mant exp) * 10 ^ 16 : ℚ) ≤ mant := by
    refine le_of_mul_le_mul_right ?_ hpos
    linarith
  have hlt := hc.lt
  rw [gap] at hmant
  split at hmant
  · next htwo =>
    rw [htwo.1, hiddenBit] at hmant
    norm_num at hmant
  · norm_num at hmant
    omega

theorem leadingPower_le {num den : Nat} (hnum : 0 < num) (hden : 0 < den) :
    (10 : ℚ) ^ leadingPower num den ≤ num / den := by
  have hden' : (0 : ℚ) < den := Nat.cast_pos.mpr hden
  have hnegative : ∀ k : Nat, den ≤ num * 10 ^ k → (10 : ℚ) ^ (-(k : Int)) ≤ num / den := by
    intro k hk
    rw [zpow_neg, zpow_natCast, inv_eq_one_div, div_le_div_iff₀ (by positivity) hden', one_mul]
    exact_mod_cast hk
  rw [leadingPower]
  split
  · next hle =>
    have hwhole : 0 < num / den := Nat.div_pos hle hden
    have hsize := length_toString_pos (num / den)
    have hpower : ((toString (num / den)).length : Int) - 1 = (((toString (num / den)).length - 1 : Nat) : Int) := by
      omega
    rw [hpower, zpow_natCast]
    calc (10 ^ ((toString (num / den)).length - 1) : ℚ) ≤ (num / den : Nat) := by
          exact_mod_cast (length_toString_bounds hwhole).1
      _ ≤ num / den := Nat.cast_div_le
  · next hlt =>
    have hinverse : den ≤ num * ((den + num - 1) / num) := by
      have hsplit := Nat.div_add_mod (den + num - 1) num
      have hmod := Nat.mod_lt (den + num - 1) hnum
      omega
    have hpos : 0 < (den + num - 1) / num := by
      rcases Nat.eq_zero_or_pos ((den + num - 1) / num) with hzero | hpos
      · rw [hzero] at hinverse
        omega
      · exact hpos
    have hbound := (length_toString_bounds hpos).2
    have hsize := length_toString_pos ((den + num - 1) / num)
    simp only
    generalize (toString ((den + num - 1) / num)).length = size at hbound hsize ⊢
    split
    · next hge =>
      have hpower : (size : Int) - 1 = ((size - 1 : Nat) : Int) := by omega
      rw [hpower] at hge ⊢
      exact hnegative _ hge
    · exact hnegative size (hinverse.trans (Nat.mul_le_mul_left num hbound.le))

theorem shortest_holds {lead : Int} {i : Nat} (hi : i < fuel) (h : n.pick? (lead - ↑(used + i)) ≠ none) :
    n.holds (n.shortest lead fuel used).digits (n.shortest lead fuel used).power = true := by
  induction fuel generalizing used i with
  | zero => exact absurd hi (Nat.not_lt_zero i)
  | succ fuel ih =>
    rw [Neighbourhood.shortest]
    split
    · next d hd => exact pick?_holds hd
    · next hnone =>
      cases i with
      | zero => exact absurd hnone h
      | succ i =>
        refine ih (Nat.lt_of_succ_lt_succ hi) ?_
        rwa [Nat.add_assoc, Nat.add_comm 1 i]

theorem dropZeros_value (fuel d : Nat) (p : Int) :
    ((dropZeros fuel d p).digits * 10 ^ (dropZeros fuel d p).power : ℚ) = d * 10 ^ p := by
  induction fuel generalizing d p with
  | zero => rfl
  | succ fuel ih =>
    rw [dropZeros]
    split
    · next hzero =>
      simp only [Bool.and_eq_true, bne_iff_ne, ne_eq, beq_iff_eq] at hzero
      have hten : ((d / 10 : Nat) * 10 : ℚ) = d := by
        exact_mod_cast Nat.div_mul_cancel (Nat.dvd_of_mod_eq_zero hzero.2)
      rw [ih, zpow_add_one₀ (by norm_num), ← hten]
      ring
    · rfl

theorem shortest_near (hc : Canonical mant exp) :
    Near mant exp ((shortest mant exp).digits * 10 ^ (shortest mant exp).power) := by
  have hratio : ((ratio mant exp).1 / (ratio mant exp).2 : ℚ) = mant * 2 ^ exp := by
    rw [ratio_fst, ratio_snd, Nat.cast_mul, mul_div_assoc, ratio_one_value]
  have hnum : 0 < (ratio mant exp).1 := by
    rw [ratio_fst]
    exact Nat.mul_pos hc.pos (ratio_one_pos exp).1
  have hden : 0 < (ratio mant exp).2 := by
    rw [ratio_snd]
    exact (ratio_one_pos exp).2
  have hlead := leadingPower_le hnum hden
  rw [hratio] at hlead
  have hgrid : (10 : ℚ) ^ (leadingPower (ratio mant exp).1 (ratio mant exp).2 - ↑(0 + 16)) * 10 ^ 16 ≤
      mant * 2 ^ exp := by
    rw [zpow_sub₀ (by norm_num)]
    norm_num
    exact hlead
  have hholds := shortest_holds (show 16 < 17 by decide) (pick?_ne_none hc hgrid)
  rw [shortest]
  simp only [dropZeros_value]
  exact near_of_holds hc.pos hholds

theorem shortest_digits_pos (hc : Canonical mant exp) : 0 < (shortest mant exp).digits := by
  refine Nat.pos_of_ne_zero fun hzero => ?_
  have hleast := (shortest_near hc).least_le hc
  rw [hzero, Nat.cast_zero, zero_mul] at hleast
  exact absurd hleast (not_le.mpr (two_zpow_pos _))

/-! ### Reading -/

section Float

variable {x : Float} {negative : Bool}

theorem canonical_of_ofFloat (hx : Binary.ofFloat x = .finite negative mant exp) (hpos : 0 < mant) :
    ∃ hc : Canonical mant exp, x.toModel.unpack = .finite (signOf negative) mant exp hc.pos := by
  have hunpacks := ofFloat_unpacks x
  rw [hx] at hunpacks
  rcases hunpacks with ⟨hzero, _⟩ | hc
  · omega
  · exact hc

/-- The shortest decimal of a float is read as the float, also with zeros behind its digits. -/
theorem floatOfDecimal_shortest (hx : Binary.ofFloat x = .finite negative mant exp) (hpos : 0 < mant)
    (zeros : Nat) : floatOfDecimal negative ((shortest mant exp).digits * 10 ^ zeros)
      ((shortest mant exp).power - zeros) = x := by
  obtain ⟨hc, hunpack⟩ := canonical_of_ofFloat hx hpos
  have hvalue : (((shortest mant exp).digits * 10 ^ zeros : Nat) * 10 ^ ((shortest mant exp).power - zeros) : ℚ) =
      (shortest mant exp).digits * 10 ^ (shortest mant exp).power := by
    rw [zpow_sub₀ (by norm_num), zpow_natCast]
    push_cast
    field_simp
  refine eq_of_unpack_eq ((floatOfDecimal_near hc ?_ ?_ negative).trans hunpack.symm)
  · exact Nat.mul_pos (shortest_digits_pos hc) (Nat.pow_pos (by decide))
  · rw [hvalue]
    exact shortest_near hc

theorem unpack_zero (hx : Binary.ofFloat x = .finite negative 0 exp) :
    x.toModel.unpack = .zero (signOf negative) := by
  have hunpacks := ofFloat_unpacks x
  rw [hx] at hunpacks
  rcases hunpacks with ⟨_, hunpack⟩ | ⟨hc, _⟩
  · exact hunpack
  · exact absurd hc.pos (Nat.lt_irrefl 0)

theorem floatOfDecimal_zero (hx : Binary.ofFloat x = .finite negative 0 exp) (p : Int) :
    floatOfDecimal negative 0 p = x := by
  refine eq_of_unpack_eq (Eq.trans ?_ (unpack_zero hx).symm)
  cases negative with
  | false =>
    have hzero : Binary.ofFloat 0.0 = .finite false 0 (-1074) := by decide +kernel
    exact unpack_zero hzero
  | true =>
    have hzero : Binary.ofFloat (-0.0) = .finite true 0 (-1074) := by decide +kernel
    exact unpack_zero hzero

theorem unpack_infinite (hx : Binary.ofFloat x = .infinite negative) :
    x.toModel.unpack = .infinity (signOf negative) := by
  have hunpacks := ofFloat_unpacks x
  rwa [hx] at hunpacks

theorem unpack_nan (hx : Binary.ofFloat x = .nan) : x.toModel.unpack = .notANumber := by
  have hunpacks := ofFloat_unpacks x
  rwa [hx] at hunpacks

theorem eq_infinite (hx : Binary.ofFloat x = .infinite negative) :
    x = if negative then -1.0 / 0.0 else 1.0 / 0.0 := by
  refine eq_of_unpack_eq ((unpack_infinite hx).trans (unpack_infinite ?_).symm)
  cases negative with
  | false => decide +kernel
  | true => decide +kernel

theorem eq_nan (hx : Binary.ofFloat x = .nan) : x = 0.0 / 0.0 :=
  eq_of_unpack_eq ((unpack_nan hx).trans (unpack_nan (by decide +kernel)).symm)

end Float

end JudgedLint.Decimal
