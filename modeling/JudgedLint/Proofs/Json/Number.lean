import JudgedLint.Json.Reader
import JudgedLint.Json.Writer
import JudgedLint.Proofs.Decimal.Shortest
import JudgedLint.Proofs.Text.Numeral

/-! Numbers of JSON, written and read back. A whole number is the one that its digits write; a float is the
one that the reader rounds its shortest digits to, wherever the point was put and with or without an
exponent. -/
namespace JudgedLint.Json

open Decimal (Binary exponentText floatOfDecimal floatText placePoint shortest)
open Text (decimalNumber?)

variable {l : Limits} {ds w f cs rest here : List Char} {n mant : Nat} {negative : Bool} {c : Char}

def EndsNumber (rest : List Char) : Prop :=
  ∀ c ∈ rest.head?, c.isDigit = false ∧ c ≠ '.' ∧ c ≠ 'e' ∧ c ≠ 'E'

/-! ### The parts of a number -/

/-- What stands in front of the point: behind a zero there are no more digits. -/
inductive IsWhole : List Char → Prop where
  | zero : IsWhole ['0']
  | digits {c : Char} {cs : List Char} (hc : c ≠ '0') (h : (c :: cs).all Char.isDigit = true) :
      IsWhole (c :: cs)

theorem isWhole_toDigits (n : Nat) : IsWhole (Nat.toDigits 10 n) := by
  rcases Nat.eq_zero_or_pos n with rfl | hpos
  · exact .zero
  · obtain ⟨c, cs, hcs, _, hzero⟩ := Text.toDigits_of_pos hpos
    have hall := Text.all_isDigit_toDigits n
    rw [hcs] at hall ⊢
    exact .digits hzero hall

theorem IsWhole.number (hw : IsWhole w) : ∃ n, decimalNumber? w = some n := by
  cases hw with
  | zero => exact ⟨0, rfl⟩
  | digits _ h => exact ⟨_, Text.decimalNumber?_eq_some.mpr ⟨List.cons_ne_nil _ _, h, rfl⟩⟩

theorem wholePart_append (hw : IsWhole w) (hrest : ∀ c ∈ rest.head?, c.isDigit = false) :
    wholePart (w ++ rest) = (w, rest) := by
  cases hw with
  | zero => rfl
  | @digits c cs hc h =>
    obtain ⟨htake, hdrop⟩ := Text.takeWhile_digits h hrest
    rw [List.cons_append] at htake hdrop ⊢
    rw [wholePart]
    · rw [htake, hdrop]
    · intro rest' heq
      exact hc (List.cons.inj heq).1

/-- The digits behind the point, and the point if there are any. -/
def fractionText (f : List Char) : List Char := if f.isEmpty then [] else '.' :: f

theorem fractionOf_append (hf : f.all Char.isDigit = true)
    (hrest : ∀ c ∈ rest.head?, c.isDigit = false ∧ c ≠ '.') :
    fractionOf (fractionText f ++ rest) = (if f.isEmpty then none else some f, rest) := by
  cases f with
  | nil =>
    cases rest with
    | nil => rfl
    | cons c rest =>
      obtain ⟨_, hpoint⟩ := hrest c rfl
      simp only [fractionText, List.isEmpty_nil, if_true, List.nil_append]
      rw [fractionOf]
      intro rest' heq
      exact hpoint (List.cons.inj heq).1
  | cons c cs =>
    obtain ⟨htake, hdrop⟩ := Text.takeWhile_digits hf fun c hc => (hrest c hc).1
    simp only [fractionText, List.isEmpty_cons, Bool.false_eq_true, if_false, List.cons_append,
      fractionOf] at htake hdrop ⊢
    rw [htake, hdrop, if_neg (by simp)]

def powerText : Option Int → List Char
  | none => []
  | some e => 'e' :: exponentText e

theorem decimalNumber?_padded (n : Nat) :
    decimalNumber? (if (toString n).toList.length < 2 then '0' :: (toString n).toList
      else (toString n).toList) = some n := by
  rw [Nat.toString_eq_ofList_toDigits, String.toList_ofList]
  split
  · refine Text.decimalNumber?_eq_some.mpr ⟨List.cons_ne_nil _ _, ?_, ?_⟩
    · exact Bool.and_eq_true_iff.mpr ⟨rfl, Text.all_isDigit_toDigits n⟩
    · exact Nat.ofDigitChars_cons.trans Nat.ofDigitChars_ten_toDigits
  · exact Text.decimalNumber?_toDigits n

theorem exponentOf_append (h : EndsNumber rest) (e : Option Int) :
    exponentOf (powerText e ++ rest) = (e, rest) := by
  cases e with
  | none =>
    cases rest with
    | nil => rfl
    | cons c rest =>
      obtain ⟨_, _, he, hE⟩ := h c rfl
      simp [powerText, exponentOf, he, hE]
  | some e =>
    have hnumber := decimalNumber?_padded e.natAbs
    have hall := (Text.decimalNumber?_eq_some.mp hnumber).2.1
    obtain ⟨htake, hdrop⟩ := Text.takeWhile_digits hall fun c hc => (h c hc).1
    rw [powerText, exponentText]
    generalize (if (toString e.natAbs).toList.length < 2 then '0' :: (toString e.natAbs).toList
      else (toString e.natAbs).toList) = ds at hnumber htake hdrop ⊢
    simp only [List.cons_append, exponentOf, beq_self_eq_true, Bool.true_or, if_true]
    by_cases hneg : e < 0
    · have hvalue : -(e.natAbs : Int) = e := by omega
      simp only [if_pos hneg, htake, hdrop, hnumber, if_true, hvalue]
    · have hvalue : (e.natAbs : Int) = e := by omega
      simp only [if_neg hneg, htake, hdrop, hnumber, Bool.false_eq_true, if_false, hvalue]

/-! ### Whole numbers -/

theorem number_toDigits (hl : l.isExceeded negative true (Nat.toDigits 10 n).length = false)
    (here : List Char) (h : EndsNumber rest) :
    number l negative here (Nat.toDigits 10 n ++ rest) =
      .ok (.int (if negative then -(n : Int) else n), rest) := by
  have hwhole := wholePart_append (isWhole_toDigits n) fun c hc => (h c hc).1
  have hfraction : fractionOf rest = (none, rest) :=
    fractionOf_append (f := []) rfl fun c hc => ⟨(h c hc).1, (h c hc).2.1⟩
  have hexponent : exponentOf rest = (none, rest) := exponentOf_append h none
  simp only [number, hwhole, Text.decimalNumber?_toDigits, hfraction, hexponent, Option.isNone_none,
    Bool.and_self, hl, Bool.false_eq_true, if_false, if_true]

/-! ### Floats -/

/-- A number with a point or an exponent, in its parts. -/
structure Parts where
  whole : List Char
  fraction : List Char
  power : Option Int

namespace Parts

variable (p : Parts)

def text : List Char := p.whole ++ (fractionText p.fraction ++ powerText p.power)

/-- The power of ten of the last digit. -/
def lastPower : Int := p.power.getD 0 - p.fraction.length

/-- Parts that are read as they are, with few digits in front of the point. -/
structure Valid : Prop where
  whole : IsWhole p.whole
  fraction : p.fraction.all Char.isDigit = true
  inexact : p.fraction ≠ [] ∨ p.power ≠ none
  short : p.whole.length ≤ 16

end Parts

theorem Parts.Valid.head {p : Parts} (hp : p.Valid) : ∃ c cs, p.text = c :: cs ∧ c.isDigit = true := by
  obtain ⟨w, f, e⟩ := p
  cases hp.whole with
  | zero => exact ⟨'0', _, rfl, rfl⟩
  | @digits c cs _ h => exact ⟨c, _, rfl, (Bool.and_eq_true_iff.mp h).1⟩

theorem isExceeded_of_short {k : Nat} (hl : 17 ≤ l.digits) (hk : k ≤ 16) :
    l.isExceeded negative false k = false := by
  have hsign : (if negative then 1 else 0) ≤ 1 := by cases negative <;> decide
  rw [Limits.isExceeded]
  split
  · exact decide_eq_false (by omega)
  · rfl

theorem number_parts {p : Parts} (hp : p.Valid) (hl : 17 ≤ l.digits)
    (hdigits : decimalNumber? (p.whole ++ p.fraction) = some mant) (h : EndsNumber rest) :
    number l negative here (p.text ++ rest) =
      .ok (.float (floatOfDecimal negative mant p.lastPower), rest) := by
  obtain ⟨w, f, e⟩ := p
  obtain ⟨hw, hf, hinexact, hshort⟩ := hp
  simp only at hw hf hinexact hshort hdigits
  obtain ⟨n, hn⟩ := hw.number
  have hpower : ∀ c ∈ (powerText e ++ rest).head?, c.isDigit = false ∧ c ≠ '.' := by
    intro c hc
    cases e with
    | none => exact ⟨(h c hc).1, (h c hc).2.1⟩
    | some e =>
      cases hc
      decide
  have hfraction : ∀ c ∈ (fractionText f ++ (powerText e ++ rest)).head?, c.isDigit = false := by
    intro c hc
    cases f with
    | nil => exact (hpower c hc).1
    | cons d f =>
      cases hc
      decide
  have hinexact' : ((if f.isEmpty then none else some f).isNone && e.isNone) = false := by
    cases f with
    | nil =>
      obtain ⟨e, rfl⟩ := Option.ne_none_iff_exists'.mp (hinexact.resolve_left fun hne => hne rfl)
      rfl
    | cons d f => rfl
  have hdefault : (if f.isEmpty then none else some f).getD [] = f := by
    cases f with
    | nil => rfl
    | cons d f => rfl
  simp only [number, Parts.text, Parts.lastPower, List.append_assoc, wholePart_append hw hfraction, hn,
    fractionOf_append hf hpower, exponentOf_append h, hinexact', isExceeded_of_short hl hshort, hdefault, hdigits,
    Option.getD_some, Bool.false_eq_true, if_false]

/-- Parts that write the digits of a decimal, perhaps with zeros behind them. -/
structure Parts.Write (p : Parts) (d : Nat) (power : Int) : Prop extends p.Valid where
  value : ∃ zeros : Nat, decimalNumber? (p.whole ++ p.fraction) = some (d * 10 ^ zeros) ∧
    p.lastPower = power - zeros

section Places

variable {d : Nat} {point : Int} (hd : 0 < d)
include hd

theorem isWhole_take {k : Nat} (hk : 0 < k) : IsWhole ((Nat.toDigits 10 d).take k) := by
  obtain ⟨c, cs, hcs, _, hzero⟩ := Text.toDigits_of_pos hd
  have hall := Text.all_isDigit_toDigits d
  obtain ⟨k, rfl⟩ := Nat.exists_eq_add_of_lt hk
  rw [hcs] at hall ⊢
  rw [Nat.zero_add, List.take_succ_cons]
  refine .digits hzero (List.all_eq_true.mpr fun c' hc' => List.all_eq_true.mp hall c' ?_)
  exact (List.mem_cons.mp hc').elim (fun h => h ▸ List.mem_cons_self)
    fun h => List.mem_cons_of_mem _ (List.mem_of_mem_take h)

omit hd in
theorem write_small (hpoint : point ≤ 0) : Parts.Write
    ⟨['0'], List.replicate (-point).toNat '0' ++ Nat.toDigits 10 d, none⟩ d
      (point - (Nat.toDigits 10 d).length) := by
  have hall : (List.replicate (-point).toNat '0' ++ Nat.toDigits 10 d).all Char.isDigit = true := by
    rw [List.all_append, Text.all_isDigit_toDigits, List.all_replicate]
    simp
  refine ⟨⟨.zero, hall, .inl (by simp [Nat.toDigits_ne_nil]), Nat.le_of_ble_eq_true rfl⟩, 0, ?_, ?_⟩
  · have hzeros := Text.decimalNumber?_zeros_append ((-point).toNat + 1) d
    rw [Nat.pow_zero, Nat.mul_one]
    exact hzeros
  · simp only [Parts.lastPower, Option.getD_none, List.length_append, List.length_replicate]
    omega

theorem write_large (hpoint : point ≤ 16) (hlarge : (Nat.toDigits 10 d).length ≤ point.toNat) : Parts.Write
    ⟨Nat.toDigits 10 d ++ List.replicate (point.toNat - (Nat.toDigits 10 d).length) '0', ['0'], none⟩ d
      (point - (Nat.toDigits 10 d).length) := by
  obtain ⟨c, cs, hcs, _, hzero⟩ := Text.toDigits_of_pos hd
  have hvalue := Text.decimalNumber?_append_zeros d (point.toNat - (Nat.toDigits 10 d).length)
  have hwhole : IsWhole (Nat.toDigits 10 d ++ List.replicate (point.toNat - (Nat.toDigits 10 d).length) '0') := by
    have hall := (Text.decimalNumber?_eq_some.mp hvalue).2.1
    rw [hcs, List.cons_append] at hall ⊢
    exact .digits hzero hall
  have hsome : 0 < (Nat.toDigits 10 d).length := List.length_pos_iff.mpr Nat.toDigits_ne_nil
  refine ⟨⟨hwhole, rfl, .inl (List.cons_ne_nil _ _), ?_⟩,
    point.toNat - (Nat.toDigits 10 d).length + 1, ?_, ?_⟩
  · simp only [List.length_append, List.length_replicate]
    omega
  · have hzeros := Text.decimalNumber?_append_zeros d (point.toNat - (Nat.toDigits 10 d).length + 1)
    rw [List.replicate_succ', ← List.append_assoc] at hzeros
    exact hzeros
  · simp only [Parts.lastPower, Option.getD_none, List.length_singleton]
    omega

theorem write_within (hpos : 0 < point) (hpoint : point ≤ 16) (hwithin : point.toNat < (Nat.toDigits 10 d).length) :
    Parts.Write ⟨(Nat.toDigits 10 d).take point.toNat, (Nat.toDigits 10 d).drop point.toNat, none⟩ d
      (point - (Nat.toDigits 10 d).length) := by
  have hall : ((Nat.toDigits 10 d).drop point.toNat).all Char.isDigit = true :=
    List.all_eq_true.mpr fun c hc =>
      List.all_eq_true.mp (Text.all_isDigit_toDigits d) c (List.mem_of_mem_drop hc)
  refine ⟨⟨isWhole_take hd (by omega), hall, .inl ?_, ?_⟩, 0, ?_, ?_⟩
  · simpa using hwithin
  · simp only [List.length_take]
    omega
  · simp only [List.take_append_drop, Nat.pow_zero, Nat.mul_one]
    exact Text.decimalNumber?_toDigits d
  · simp only [Parts.lastPower, Option.getD_none, List.length_drop]
    omega

theorem placePoint_write (hpoint : point ≤ 16) : ∃ p : Parts,
    p.Write d (point - (Nat.toDigits 10 d).length) ∧ placePoint (Nat.toDigits 10 d) point = p.text := by
  rw [placePoint]
  split
  · next hsmall =>
    exact ⟨_, write_small hsmall, by simp [Parts.text, fractionText, powerText, Nat.toDigits_ne_nil]⟩
  · split
    · next hlarge => exact ⟨_, write_large hd hpoint hlarge, by simp [Parts.text, fractionText, powerText]⟩
    · next hpos hwithin =>
      have hlt := not_le.mp hwithin
      refine ⟨_, write_within hd (not_le.mp hpos) hpoint hlt, ?_⟩
      have hsome : ((Nat.toDigits 10 d).drop point.toNat).isEmpty = false := by
        simpa [List.isEmpty_iff] using hlt
      simp [Parts.text, fractionText, powerText, hsome]

theorem write_power {c : Char} {cs : List Char} (hcs : Nat.toDigits 10 d = c :: cs) :
    Parts.Write ⟨[c], cs, some (point - 1)⟩ d (point - (Nat.toDigits 10 d).length) := by
  have hwhole := isWhole_take hd Nat.one_pos
  have hall := Text.all_isDigit_toDigits d
  have hvalue := Text.decimalNumber?_toDigits d
  rw [hcs] at hwhole hall hvalue
  refine ⟨⟨hwhole, (Bool.and_eq_true_iff.mp hall).2, .inr (Option.some_ne_none _),
    Nat.le_of_ble_eq_true rfl⟩, 0, ?_, ?_⟩
  · rw [Nat.pow_zero, Nat.mul_one]
    exact hvalue
  · simp only [Parts.lastPower, Option.getD_some, hcs, List.length_cons]
    omega

/-- The digits with a point, or with an exponent if the point stands far from them. -/
theorem placed_write (power : Int) : ∃ p : Parts, p.Write d power ∧
    (if -4 < power + (Nat.toDigits 10 d).length && power + (Nat.toDigits 10 d).length ≤ 16 then
      placePoint (Nat.toDigits 10 d) (power + (Nat.toDigits 10 d).length)
    else
      match Nat.toDigits 10 d with
      | [c] => c :: 'e' :: exponentText (power + (Nat.toDigits 10 d).length - 1)
      | c :: rest => c :: '.' :: rest ++ 'e' :: exponentText (power + (Nat.toDigits 10 d).length - 1)
      | [] => []) = p.text := by
  generalize hpoint : power + (Nat.toDigits 10 d).length = point
  obtain rfl : power = point - (Nat.toDigits 10 d).length := by omega
  split
  · next hplaced =>
    rw [Bool.and_eq_true, decide_eq_true_eq, decide_eq_true_eq] at hplaced
    exact placePoint_write hd hplaced.2
  · split
    · next c hcs => exact ⟨_, write_power hd hcs, by simp [Parts.text, fractionText, powerText]⟩
    · next c rest hmore hcs =>
      have hrest : rest ≠ [] := hmore
      exact ⟨_, write_power hd hcs, by simp [Parts.text, fractionText, powerText, hrest]⟩
    · next hnil => exact absurd hnil Nat.toDigits_ne_nil

end Places

section Float

variable {x : Float} {exp : Int}

/-- The text of a finite float is its sign and parts that are read as it. -/
theorem floatText_parts (hx : Binary.ofFloat x = .finite negative mant exp) : ∃ p : Parts, p.Valid ∧
    (floatText x).toList = (if negative then ['-'] else []) ++ p.text ∧
    ∃ n, decimalNumber? (p.whole ++ p.fraction) = some n ∧ floatOfDecimal negative n p.lastPower = x := by
  rcases Nat.eq_zero_or_pos mant with rfl | hpos
  · refine ⟨⟨['0'], ['0'], none⟩, ⟨.zero, rfl, .inl (List.cons_ne_nil _ _), Nat.le_of_ble_eq_true rfl⟩, ?_, 0,
      rfl, Decimal.floatOfDecimal_zero hx _⟩
    simp [floatText, hx, Parts.text, fractionText, powerText]
  · obtain ⟨hc, _⟩ := Decimal.canonical_of_ofFloat hx hpos
    have hdigits := Decimal.shortest_digits_pos hc
    obtain ⟨p, ⟨hvalid, zeros, hvalue, hpower⟩, htext⟩ :=
      placed_write hdigits (shortest mant exp).power
    have hne : ¬(mant == 0) = true := by simpa using Nat.ne_of_gt hpos
    refine ⟨p, hvalid, ?_, _, hvalue, ?_⟩
    · simp only [floatText, hx, if_neg hne, Nat.toString_eq_ofList_toDigits, String.toList_ofList]
      exact congrArg ((if negative then ['-'] else []) ++ ·) htext
    · rw [hpower]
      exact Decimal.floatOfDecimal_shortest hx hpos zeros

/-- What is written for a float is one of the words or, perhaps behind a sign, a number that is read as it. -/
theorem numberText_cases (x : Float) :
    (numberText x = "NaN" ∧ x = 0.0 / 0.0) ∨ (numberText x = "Infinity" ∧ x = 1.0 / 0.0) ∨
      (numberText x = "-Infinity" ∧ x = -1.0 / 0.0) ∨
      ∃ (negative : Bool) (p : Parts), p.Valid ∧
        (numberText x).toList = (if negative then ['-'] else []) ++ p.text ∧
        ∃ n, decimalNumber? (p.whole ++ p.fraction) = some n ∧
          floatOfDecimal negative n p.lastPower = x := by
  cases hx : Binary.ofFloat x with
  | nan => exact .inl ⟨by simp [numberText, hx], Decimal.eq_nan hx⟩
  | infinite negative =>
    have hvalue := Decimal.eq_infinite hx
    cases negative with
    | false => exact .inr (.inl ⟨by simp [numberText, hx], hvalue⟩)
    | true => exact .inr (.inr (.inl ⟨by simp [numberText, hx], hvalue⟩))
  | finite negative mant exp =>
    obtain ⟨p, hvalid, htext, hvalue⟩ := floatText_parts hx
    refine .inr (.inr (.inr ⟨negative, p, hvalid, ?_, hvalue⟩))
    rw [← htext, numberText, hx]

end Float

/-! ### Scalars -/

variable {fuel : Nat}

theorem word?_eq_none (hc : c ∉ ['n', 't', 'f', 'N', 'I', '-']) : word? (c :: cs) = none := by
  simp only [List.mem_cons, List.not_mem_nil, or_false, not_or] at hc
  obtain ⟨hn, ht, hf, hN, hI, hminus⟩ := hc
  simp [word?, words, keyword?, Ne.symm hn, Ne.symm ht, Ne.symm hf, Ne.symm hN, Ne.symm hI,
    Ne.symm hminus]

theorem word?_minus (hc : c ≠ 'I') : word? ('-' :: c :: cs) = none := by
  simp [word?, words, keyword?, Ne.symm hc]

theorem scalar_word {r : Json × List Char} (h : word? cs = some r) : scalar l fuel cs = .ok r := by
  unfold scalar
  rw [h]

theorem scalar_null : scalar l fuel ("null".toList ++ rest) = .ok (.null, rest) := scalar_word rfl

theorem scalar_bool (b : Bool) :
    scalar l fuel ((if b then "true" else "false").toList ++ rest) = .ok (.bool b, rest) := by
  cases b with
  | true => exact scalar_word rfl
  | false => exact scalar_word rfl

theorem isDigit_notMem (h : c.isDigit = true) : c ∉ ['n', 't', 'f', 'N', 'I', '-', '"', '[', '\x7b'] := by
  intro hmem
  simp only [List.mem_cons, List.not_mem_nil, or_false] at hmem
  rcases hmem with rfl | rfl | rfl | rfl | rfl | rfl | rfl | rfl | rfl <;> exact absurd h (by decide)

theorem scalar_digit (h : c.isDigit = true) :
    scalar l fuel (c :: cs) = number l false (c :: cs) (c :: cs) := by
  have hout := isDigit_notMem h
  simp only [List.mem_cons, List.not_mem_nil, or_false, not_or] at hout
  obtain ⟨hn, ht, hf, hN, hI, hminus, hquote, _, _⟩ := hout
  rw [scalar, word?_eq_none (by simp [hn, ht, hf, hN, hI, hminus])]
  · intro rest heq
    exact hquote (List.cons.inj heq).1
  · intro rest heq
    exact hminus (List.cons.inj heq).1

theorem scalar_minus (h : c.isDigit = true) :
    scalar l fuel ('-' :: c :: cs) = number l true ('-' :: c :: cs) (c :: cs) := by
  have hI : c ≠ 'I' := by
    rintro rfl
    exact absurd h (by decide)
  rw [scalar, word?_minus hI]

theorem toDigits_head (n : Nat) : ∃ c cs, Nat.toDigits 10 n = c :: cs ∧ c.isDigit = true := by
  rcases Nat.eq_zero_or_pos n with rfl | hpos
  · exact ⟨'0', [], rfl, rfl⟩
  · obtain ⟨c, cs, hcs, hdigit, _⟩ := Text.toDigits_of_pos hpos
    exact ⟨c, cs, hcs, hdigit⟩

theorem toList_toString (n : Int) :
    (toString n).toList = (if decide (n < 0) then ['-'] else []) ++ Nat.toDigits 10 n.natAbs := by
  cases n with
  | ofNat n => simp [ToString.toString, Int.repr]
  | negSucc n => simp [ToString.toString, Int.repr, Int.negSucc_lt_zero]

/-- A number starts with a digit or a sign, or is a word. -/
def StartsNumber (c : Char) : Prop := c.isDigit = true ∨ c ∈ ['-', 'N', 'I']

instance (c : Char) : Decidable (StartsNumber c) := inferInstanceAs (Decidable (_ ∨ _))

theorem StartsNumber.notMem (h : StartsNumber c) :
    c ∉ ['[', '\x7b', ']', '\uFEFF', ' ', '\t', '\n', '\r'] := by
  intro hmem
  simp only [List.mem_cons, List.not_mem_nil, or_false] at hmem
  rcases hmem with rfl | rfl | rfl | rfl | rfl | rfl | rfl | rfl <;> exact absurd h (by decide)

theorem signed_head (negative : Bool) (h : c.isDigit = true) :
    ∃ c' cs', (if negative then ['-'] else []) ++ c :: cs = c' :: cs' ∧ StartsNumber c' := by
  cases negative with
  | true => exact ⟨'-', c :: cs, rfl, .inr (by decide)⟩
  | false => exact ⟨c, cs, rfl, .inl h⟩

theorem toString_head (n : Int) : ∃ c cs, (toString n).toList = c :: cs ∧ StartsNumber c := by
  obtain ⟨c, cs, hcs, hdigit⟩ := toDigits_head n.natAbs
  rw [toList_toString, hcs]
  exact signed_head _ hdigit

theorem numberText_head (x : Float) : ∃ c cs, (numberText x).toList = c :: cs ∧ StartsNumber c := by
  rcases numberText_cases x with ⟨htext, _⟩ | ⟨htext, _⟩ | ⟨htext, _⟩ | ⟨negative, p, hp, htext, _⟩
  · exact ⟨'N', ['a', 'N'], by rw [htext]; rfl, .inr (by decide)⟩
  · exact ⟨'I', "nfinity".toList, by rw [htext]; rfl, .inr (by decide)⟩
  · exact ⟨'-', "Infinity".toList, by rw [htext]; rfl, .inr (by decide)⟩
  · obtain ⟨c, cs, hcs, hdigit⟩ := hp.head
    rw [htext, hcs]
    exact signed_head _ hdigit

theorem scalar_signed {negative : Bool} {v : Json} (hc : c.isDigit = true)
    (h : ∀ here, number l negative here (c :: cs) = .ok (v, rest)) :
    scalar l fuel ((if negative then ['-'] else []) ++ c :: cs) = .ok (v, rest) := by
  cases negative with
  | true => exact (scalar_minus hc).trans (h _)
  | false => exact (scalar_digit hc).trans (h _)

theorem scalar_int {n : Int} (hn : l.isExceeded (n < 0) true (Nat.toDigits 10 n.natAbs).length = false)
    (h : EndsNumber rest) : scalar l fuel ((toString n).toList ++ rest) = .ok (.int n, rest) := by
  obtain ⟨c, cs, hcs, hdigit⟩ := toDigits_head n.natAbs
  have hvalue : (if decide (n < 0) then -(n.natAbs : Int) else n.natAbs) = n := by
    split
    · next hneg =>
      have := of_decide_eq_true hneg
      omega
    · next hpos =>
      have := of_decide_eq_false (Bool.eq_false_iff.mpr hpos)
      omega
  have hnumber : ∀ here, number l (n < 0) here (Nat.toDigits 10 n.natAbs ++ rest) = .ok (.int n, rest) := by
    intro here
    rw [number_toDigits hn here h, hvalue]
  rw [hcs, List.cons_append] at hnumber
  rw [toList_toString, hcs, List.append_assoc, List.cons_append]
  exact scalar_signed hdigit hnumber

theorem scalar_float (x : Float) (hl : 17 ≤ l.digits) (h : EndsNumber rest) :
    scalar l fuel ((numberText x).toList ++ rest) = .ok (.float x, rest) := by
  rcases numberText_cases x with ⟨htext, rfl⟩ | ⟨htext, rfl⟩ | ⟨htext, rfl⟩ |
    ⟨negative, p, hp, htext, mant, hmant, hx⟩
  · rw [htext]
    exact scalar_word rfl
  · rw [htext]
    exact scalar_word rfl
  · rw [htext]
    exact scalar_word rfl
  · obtain ⟨c, cs, hcs, hdigit⟩ := hp.head
    have hnumber : ∀ here, number l negative here (p.text ++ rest) = .ok (.float x, rest) := by
      intro here
      rw [number_parts hp hl hmant h, hx]
    rw [hcs, List.cons_append] at hnumber
    rw [htext, hcs, List.append_assoc, List.cons_append]
    exact scalar_signed hdigit hnumber

end JudgedLint.Json
