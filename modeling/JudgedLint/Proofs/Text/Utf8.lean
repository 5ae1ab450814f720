import JudgedLint.Proofs.Except
import JudgedLint.Text.Utf8

/-! The bytes of a text are decoded as the text, character by character. -/
namespace JudgedLint.Text

variable {c : Char} {b0 b1 b2 b3 : UInt8}

theorem toNat_valid (c : Char) : c.toNat < 0xD800 ∨ 0xDFFF < c.toNat ∧ c.toNat < 0x110000 :=
  c.valid

theorem isContinuation_of_toNat {n : Nat} (h : b1.toNat = n % 64 + 128) :
    isContinuation b1 = true ∧ low6 b1 = n % 64 := by
  simp only [isContinuation, low6, UInt8.lt_iff_toNat_lt, UInt8.le_iff_toNat_le, h, Bool.and_eq_true,
    decide_eq_true_eq]
  refine ⟨⟨?_, ?_⟩, ?_⟩
  · exact Nat.le_add_left _ _
  · change _ < 192
    omega
  · omega

theorem utf8Step_one (h0 : b0.toNat = c.toNat) (hc : c.toNat < 0x80) (rest : Bytes) :
    utf8Step b0 rest = .char c 0 := by
  have hb : b0 < 0x80 := UInt8.lt_iff_toNat_lt.mpr (h0 ▸ hc)
  simp only [utf8Step, hb, if_true, h0, Char.ofNat_toNat]

theorem utf8Step_two (h0 : b0.toNat = c.toNat / 64 + 0xC0) (h1 : b1.toNat = c.toNat % 64 + 128)
    (hc : 0x80 ≤ c.toNat) (hc' : c.toNat < 0x800) (rest : Bytes) :
    utf8Step b0 (b1 :: rest) = .char c 1 := by
  obtain ⟨hcont, hlow⟩ := isContinuation_of_toNat h1
  have ha : ¬b0.toNat < 0x80 := by omega
  have hb : ¬b0.toNat < 0xC2 := by omega
  have hd : b0.toNat < 0xE0 := by omega
  have hvalue : (b0.toNat - 0xC0) * 64 + c.toNat % 64 = c.toNat := by omega
  simp only [utf8Step, UInt8.lt_iff_toNat_lt, UInt8.reduceToNat, ha, hb, hd, hcont, hlow, if_true,
    if_false, hvalue, Char.ofNat_toNat]

theorem utf8Step_three (h0 : b0.toNat = c.toNat / 4096 + 0xE0)
    (h1 : b1.toNat = c.toNat / 64 % 64 + 128) (h2 : b2.toNat = c.toNat % 64 + 128)
    (hc : 0x800 ≤ c.toNat) (hc' : c.toNat < 0x10000) (rest : Bytes) :
    utf8Step b0 (b1 :: b2 :: rest) = .char c 2 := by
  obtain ⟨hcont, hlow⟩ := isContinuation_of_toNat h1
  obtain ⟨hcont2, hlow2⟩ := isContinuation_of_toNat h2
  have hvalid := toNat_valid c
  have ha : ¬b0.toNat < 0x80 := by omega
  have hb : ¬b0.toNat < 0xC2 := by omega
  have hd : ¬b0.toNat < 0xE0 := by omega
  have he : b0.toNat < 0xF0 := by omega
  have hvalue : (b0.toNat - 0xE0) * 4096 + c.toNat / 64 % 64 * 64 + c.toNat % 64 = c.toNat := by omega
  have hsecond : ¬(!isContinuation b1 || (b0 == 0xE0 && b1 < 0xA0) || (b0 == 0xED && 0xA0 ≤ b1)) =
      true := by
    simp only [hcont, Bool.not_true, Bool.false_or, Bool.or_eq_true, Bool.and_eq_true, beq_iff_eq,
      decide_eq_true_eq, ← UInt8.toNat_inj, UInt8.lt_iff_toNat_lt, UInt8.le_iff_toNat_le,
      UInt8.reduceToNat]
    omega
  simp only [utf8Step, if_neg hsecond, hcont2, hlow, hlow2]
  simp only [UInt8.lt_iff_toNat_lt, UInt8.reduceToNat, ha, hb, hd, he, if_true, if_false, hvalue,
    Char.ofNat_toNat]

theorem utf8Step_four (h0 : b0.toNat = c.toNat / 262144 + 0xF0)
    (h1 : b1.toNat = c.toNat / 4096 % 64 + 128) (h2 : b2.toNat = c.toNat / 64 % 64 + 128)
    (h3 : b3.toNat = c.toNat % 64 + 128) (hc : 0x10000 ≤ c.toNat) (rest : Bytes) :
    utf8Step b0 (b1 :: b2 :: b3 :: rest) = .char c 3 := by
  obtain ⟨hcont, hlow⟩ := isContinuation_of_toNat h1
  obtain ⟨hcont2, hlow2⟩ := isContinuation_of_toNat h2
  obtain ⟨hcont3, hlow3⟩ := isContinuation_of_toNat h3
  have hvalid := toNat_valid c
  have ha : ¬b0.toNat < 0x80 := by omega
  have hb : ¬b0.toNat < 0xC2 := by omega
  have hd : ¬b0.toNat < 0xE0 := by omega
  have he : ¬b0.toNat < 0xF0 := by omega
  have hf : b0.toNat < 0xF5 := by omega
  have hvalue : (b0.toNat - 0xF0) * 262144 + c.toNat / 4096 % 64 * 4096 + c.toNat / 64 % 64 * 64 +
      c.toNat % 64 = c.toNat := by omega
  have hsecond : ¬(!isContinuation b1 || (b0 == 0xF0 && b1 < 0x90) || (b0 == 0xF4 && 0x90 ≤ b1)) =
      true := by
    simp only [hcont, Bool.not_true, Bool.false_or, Bool.or_eq_true, Bool.and_eq_true, beq_iff_eq,
      decide_eq_true_eq, ← UInt8.toNat_inj, UInt8.lt_iff_toNat_lt, UInt8.le_iff_toNat_le,
      UInt8.reduceToNat]
    omega
  simp only [utf8Step, if_neg hsecond, hcont2, hcont3, hlow, hlow2, hlow3]
  simp only [UInt8.lt_iff_toNat_lt, UInt8.reduceToNat, ha, hb, hd, he, hf, Bool.not_true,
    Bool.false_eq_true, if_true, if_false, hvalue, Char.ofNat_toNat]

theorem utf8Step_encodeChar (c : Char) : ∃ b more, String.utf8EncodeChar c = b :: more ∧
    ∀ rest, utf8Step b (more ++ rest) = .char c more.length := by
  have hvalid := toNat_valid c
  have hbyte : ∀ n, n < 256 → (UInt8.ofNat n).toNat = n := fun n hn => Nat.mod_eq_of_lt hn
  simp only [String.utf8EncodeChar]
  have hv : c.val.toNat = c.toNat := rfl
  rw [hv]
  split
  · exact ⟨_, _, rfl, utf8Step_one (hbyte _ (by omega)) (by omega)⟩
  · split
    · refine ⟨_, _, rfl, utf8Step_two ?_ ?_ (by omega) (by omega)⟩
      · rw [hbyte _ (by omega)]
        omega
      · exact hbyte _ (by omega)
    · split
      · refine ⟨_, _, rfl, utf8Step_three ?_ ?_ ?_ (by omega) (by omega)⟩
        · rw [hbyte _ (by omega)]
          omega
        · exact hbyte _ (by omega)
        · exact hbyte _ (by omega)
      · refine ⟨_, _, rfl, utf8Step_four ?_ ?_ ?_ ?_ (by omega)⟩
        · rw [hbyte _ (by omega)]
          omega
        · exact hbyte _ (by omega)
        · exact hbyte _ (by omega)
        · exact hbyte _ (by omega)

theorem decodeFrom_encode (cs : List Char) (pos : Nat) :
    decodeFrom pos (cs.flatMap String.utf8EncodeChar) = .ok cs := by
  induction cs generalizing pos with
  | nil => rw [List.flatMap_nil, decodeFrom]
  | cons c rest ih =>
    obtain ⟨b, more, hbytes, hstep⟩ := utf8Step_encodeChar c
    rw [List.flatMap_cons, hbytes, List.cons_append, decodeFrom, hstep]
    simp only [List.drop_left, ih]
    rfl

/-- Nothing is lost in the bytes of a text. -/
theorem utf8Decode_utf8Encode (s : String) : utf8Decode (utf8Encode s) = .ok s := by
  rw [utf8Decode, utf8Encode, decodeFrom_encode]
  exact congrArg Except.ok String.ofList_toList

end JudgedLint.Text
