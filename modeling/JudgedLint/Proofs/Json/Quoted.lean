import JudgedLint.Json.Reader
import JudgedLint.Json.Writer
import JudgedLint.Proofs.Except
import Mathlib.Tactic.ByContra
import Mathlib.Tactic.SplitIfs

/-! Texts of JSON, written and read back: escapes give the characters they stand for. -/
namespace JudgedLint.Json

open Text (charOfCode codeOf hexChars hexNumber? hexValue? isHighSurrogate isLowSurrogate isStandIn
  isSurrogate)

theorem toNat_hexDigit : ∀ n < 16, hexValue? (Text.hexDigit n) = some n := by decide

theorem hexNumber?_hexChars {n : Nat} (h : n < 65536) : hexNumber? (hexChars 4 n) = some n := by
  have h1 := toNat_hexDigit (n / 16 / 16 / 16 % 16) (by omega)
  have h2 := toNat_hexDigit (n / 16 / 16 % 16) (by omega)
  have h3 := toNat_hexDigit (n / 16 % 16) (by omega)
  have h4 := toNat_hexDigit (n % 16) (by omega)
  simp only [hexNumber?, hexChars, List.nil_append, List.cons_append, Text.numeral?, List.foldl_cons,
    List.foldl_nil, h1, h2, h3, h4, Option.bind_eq_bind, Option.bind_some, Option.pure_def]
  congr 1
  omega

theorem hexQuad?_hexChars {n : Nat} (h : n < 65536) {rest : List Char} (hrest : rest ≠ []) :
    hexQuad? (hexChars 4 n ++ rest) = some (n, rest) := by
  have hn := hexNumber?_hexChars h
  simp only [hexChars, List.nil_append, List.cons_append] at hn ⊢
  rw [hexQuad?, if_neg (by simpa using hrest), hn]
  rfl

/-! ### Code points -/

section Code

variable {c : Char} {n : Nat}

theorem codeOf_of_not_standIn (h : isStandIn c = false) : codeOf c = c.toNat := by
  rw [codeOf, h, if_neg Bool.false_ne_true]

theorem isSurrogate_toNat (c : Char) : isSurrogate c.toNat = false := by
  simp only [isSurrogate, Bool.and_eq_false_iff, decide_eq_false_iff_not]
  rcases c.valid with hlow | ⟨hlow, _⟩
  · have hlow' : c.toNat < 0xD800 := hlow
    omega
  · have hlow' : 0xDFFF < c.toNat := hlow
    omega

theorem isSurrogate_of_high (h : isHighSurrogate n = true) : isSurrogate n = true := by
  simp only [isHighSurrogate, isSurrogate, Bool.and_eq_true, decide_eq_true_eq] at h ⊢
  omega

theorem isSurrogate_of_low (h : isLowSurrogate n = true) : isSurrogate n = true := by
  simp only [isLowSurrogate, isSurrogate, Bool.and_eq_true, decide_eq_true_eq] at h ⊢
  omega

theorem isHighSurrogate_of_low (h : isLowSurrogate n = true) : isHighSurrogate n = false := by
  simp only [isLowSurrogate, Bool.and_eq_true, decide_eq_true_eq] at h
  simp only [isHighSurrogate, Bool.and_eq_false_iff, decide_eq_false_iff_not]
  omega

theorem lt_of_isSurrogate (h : isSurrogate n = true) : n < 65536 := by
  simp only [isSurrogate, Bool.and_eq_true, decide_eq_true_eq] at h
  omega

theorem isStandIn_of_isSurrogate (h : isSurrogate (codeOf c) = true) : isStandIn c = true := by
  by_contra hstand
  rw [codeOf_of_not_standIn (by simpa using hstand), isSurrogate_toNat] at h
  cases h

theorem charOfCode_codeOf (c : Char) : charOfCode (codeOf c) = c := by
  cases hc : isStandIn c with
  | false =>
    rw [codeOf_of_not_standIn hc, charOfCode, isSurrogate_toNat, if_neg Bool.false_ne_true,
      Char.ofNat_toNat]
  | true =>
    obtain ⟨hle, hcode⟩ := Bool.and_eq_true_iff.mp hc
    rw [codeOf, hc, if_pos rfl, charOfCode, hcode, if_pos rfl,
      Nat.sub_add_cancel (of_decide_eq_true hle), Char.ofNat_toNat]

end Code

/-- What may stand between quotes for a character. -/
inductive Spelling (c : Char) : List Char → Prop where
  | plain (hs : isStandIn c = false) (hq : c ≠ '"') (hb : c ≠ '\\') (hc : 32 ≤ c.toNat) :
      Spelling c [c]
  | simple {e : Char} (hs : isStandIn c = false) (he : e ≠ 'u')
      (hc : simpleEscape? e = some c.toNat) : Spelling c ['\\', e]
  | unicode {n : Nat} (hn : codeOf c = n) (hc : n < 65536) : Spelling c (unicodeEscape n)
  | pair {high low : Nat} (hs : isStandIn c = false) (hhigh : isHighSurrogate high = true)
      (hlow : isLowSurrogate low = true) (hc : pairCode high low = c.toNat) :
      Spelling c (unicodeEscape high ++ unicodeEscape low)

theorem codeEscape_spelling {c : Char} (hs : isStandIn c = false) :
    Spelling c (codeEscape c.toNat) := by
  have hcode := codeOf_of_not_standIn hs
  have hlt : c.toNat < 0x110000 := by
    rcases c.valid with hlow | ⟨_, hhigh⟩
    · exact Nat.lt_trans hlow (by decide)
    · exact hhigh
  rw [codeEscape]
  split
  · next hlow => exact .unicode hcode hlow
  · refine .pair hs ?_ ?_ ?_
    · simp only [isHighSurrogate, Bool.and_eq_true, decide_eq_true_eq]
      omega
    · simp only [isLowSurrogate, Bool.and_eq_true, decide_eq_true_eq]
      omega
    · unfold pairCode
      omega

theorem charText_spelling (ascii : Bool) (c : Char) : Spelling c (charText ascii c) := by
  have hlow : ∀ {n : Nat}, c.toNat = n → n < 0xD800 → isStandIn c = false := by
    intro n hn hlt
    rw [isStandIn, Bool.and_eq_false_iff, decide_eq_false_iff_not, Text.standInDistance]
    omega
  have hsimple : ∀ {e : Char} {n : Nat}, c.toNat = n → n < 0xD800 → e ≠ 'u' →
      simpleEscape? e = some n → Spelling c ['\\', e] := by
    intro e n hn hlt he hcode
    exact .simple (hlow hn hlt) he (hn ▸ hcode)
  simp only [charText, beq_iff_eq]
  split_ifs with hq hb h8 h9 h10 h12 h13 hcontrol hs hascii
  · exact hsimple (congrArg Char.toNat hq) (by decide) (by decide) rfl
  · exact hsimple (congrArg Char.toNat hb) (by decide) (by decide) rfl
  · exact hsimple h8 (by decide) (by decide) rfl
  · exact hsimple h9 (by decide) (by decide) rfl
  · exact hsimple h10 (by decide) (by decide) rfl
  · exact hsimple h12 (by decide) (by decide) rfl
  · exact hsimple h13 (by decide) (by decide) rfl
  · exact .unicode (codeOf_of_not_standIn (hlow rfl (by omega))) (by omega)
  · refine .unicode rfl (lt_of_isSurrogate ?_)
    rw [codeOf, if_pos hs]
    exact (Bool.and_eq_true_iff.mp hs).2
  · exact codeEscape_spelling (by simpa using hs)
  · exact .plain (by simpa using hs) hq hb (by omega)

/-! ### Texts -/

variable {l : Limits} {whole rest text tail cs : List Char} {fuel n : Nat} {c : Char}

theorem textBody_simple {e : Char} {code : Nat} (he : e ≠ 'u') (hs : simpleEscape? e = some code)
    (h : textBody l whole fuel rest = .ok (text, tail)) :
    textBody l whole (fuel + 1) ('\\' :: e :: rest) = .ok (Char.ofNat code :: text, tail) := by
  rw [textBody, if_neg (by decide), if_neg (by decide), if_neg (by decide)]
  simp only [bne_iff_ne.mpr he, if_true, hs, h]
  rfl

/-- What follows does not begin with an escape of the second half of a pair. -/
def StartsNoLow (cs : List Char) : Prop :=
  ∀ second, cs = '\\' :: 'u' :: second →
    ∃ n more, second = hexChars 4 n ++ more ∧ n < 65536 ∧ more ≠ [] ∧ isLowSurrogate n = false

/-- An escape by number that has no second half behind it. -/
theorem textBody_unicode (hl : l.unpaired = true ∨ isSurrogate n = false) (hn : n < 65536) (hrest : rest ≠ [])
    (halone : isHighSurrogate n = true → StartsNoLow rest)
    (h : textBody l whole fuel rest = .ok (text, tail)) :
    textBody l whole (fuel + 1) (unicodeEscape n ++ rest) = .ok (charOfCode n :: text, tail) := by
  have hpaired : (!l.unpaired && isSurrogate n) = false := by
    rcases hl with hl | hl
    · rw [hl, Bool.not_true, Bool.false_and]
    · rw [hl, Bool.and_false]
  rw [unicodeEscape, List.cons_append, List.cons_append, textBody, if_neg (by decide),
    if_neg (by decide), if_neg (by decide)]
  simp only [hexQuad?_hexChars hn hrest, hpaired, h, bne_self_eq_false, Bool.false_eq_true, if_false]
  split
  · next second hhigh =>
    obtain ⟨n', more, rfl, hn', hmore, hlow⟩ := halone hhigh second rfl
    have hdrop : (hexChars 4 n' ++ more).drop 4 = more := by simp [hexChars]
    rw [hdrop, hexQuad?_hexChars hn' hmore, if_neg (by simpa using hmore)]
    simp only [hlow, Bool.false_eq_true, if_false]
    rfl
  · rfl

theorem textBody_pair {high low : Nat} (hhigh : isHighSurrogate high = true)
    (hlow : isLowSurrogate low = true) (hrest : rest ≠ [])
    (h : textBody l whole fuel rest = .ok (text, tail)) :
    textBody l whole (fuel + 1) (unicodeEscape high ++ (unicodeEscape low ++ rest)) =
      .ok (Char.ofNat (pairCode high low) :: text, tail) := by
  have hhigh' := lt_of_isSurrogate (isSurrogate_of_high hhigh)
  have hlow' := lt_of_isSurrogate (isSurrogate_of_low hlow)
  have hdrop : (hexChars 4 low ++ rest).drop 4 = rest := by simp [hexChars]
  have hsecond : unicodeEscape low ++ rest ≠ [] := by simp [unicodeEscape]
  rw [unicodeEscape, List.cons_append, List.cons_append, textBody, if_neg (by decide),
    if_neg (by decide), if_neg (by decide)]
  simp only [hexQuad?_hexChars hhigh' hsecond, bne_self_eq_false, Bool.false_eq_true, if_false]
  simp only [unicodeEscape, List.cons_append, hhigh, hdrop]
  rw [if_neg (by simpa using hrest), hexQuad?_hexChars hlow' hrest]
  simp only [hlow, h, if_true]
  rfl

theorem textBody_plain (hq : c ≠ '"') (hb : c ≠ '\\') (hc : 32 ≤ c.toNat)
    (h : textBody l whole fuel rest = .ok (text, tail)) :
    textBody l whole (fuel + 1) (c :: rest) = .ok (c :: text, tail) := by
  unfold textBody
  rw [if_neg (by simpa using hq), if_neg (by omega), if_pos (by simpa using hb), h]
  rfl

theorem isSurrogate_of_not_standIn (h : isStandIn c = false) : isSurrogate (codeOf c) = false := by
  rw [codeOf_of_not_standIn h, isSurrogate_toNat]

/-- The reader takes the text, which may hold halves of pairs only if it takes these alone. -/
def Limits.Takes (l : Limits) (text : List Char) : Prop :=
  l.unpaired = true ∨ text.any isStandIn = false

/-- Whatever a character is spelled as is read as this character, unless it is half of a pair and the
other half follows. -/
theorem Spelling.textBody (hc : Spelling c cs) (hl : l.Takes [c]) (hrest : rest ≠ [])
    (halone : isHighSurrogate (codeOf c) = true → StartsNoLow rest)
    (h : Json.textBody l whole fuel rest = .ok (text, tail)) :
    Json.textBody l whole (fuel + 1) (cs ++ rest) = .ok (c :: text, tail) := by
  cases hc with
  | plain _ hq hb hc => exact textBody_plain hq hb hc h
  | simple _ he hcode =>
    have hread := textBody_simple he hcode h
    rwa [Char.ofNat_toNat] at hread
  | unicode hn hlt =>
    subst hn
    have hl' : l.unpaired = true ∨ isSurrogate (codeOf c) = false :=
      hl.imp_right fun hs => isSurrogate_of_not_standIn (by simpa using hs)
    have hread := textBody_unicode hl' hlt hrest halone h
    rwa [charOfCode_codeOf] at hread
  | pair _ hhigh hlow hcode =>
    have hread := textBody_pair hhigh hlow hrest h
    rwa [hcode, Char.ofNat_toNat, ← List.append_assoc] at hread

theorem Spelling.startsNoLow (hc : Spelling c cs) (hlow : isLowSurrogate (codeOf c) = false)
    (hrest : rest ≠ []) : StartsNoLow (cs ++ rest) := by
  intro second heq
  cases hc with
  | plain _ _ hb _ => exact absurd (List.cons.inj heq).1 hb
  | simple _ he _ => exact absurd (List.cons.inj (List.cons.inj heq).2).1 he
  | unicode hn hlt =>
    subst hn
    exact ⟨_, rest, (List.cons.inj (List.cons.inj heq).2).2.symm, hlt, hrest, hlow⟩
  | @pair high low _ hhigh _ _ =>
    rw [List.append_assoc] at heq
    refine ⟨high, unicodeEscape low ++ rest, (List.cons.inj (List.cons.inj heq).2).2.symm,
      lt_of_isSurrogate (isSurrogate_of_high hhigh), by simp [unicodeEscape], ?_⟩
    cases hlow' : isLowSurrogate high with
    | false => rfl
    | true => cases (isHighSurrogate_of_low hlow').symm.trans hhigh

theorem Spelling.eq_unicode (hc : Spelling c cs) (hs : isSurrogate (codeOf c) = true) :
    cs = unicodeEscape (codeOf c) := by
  have hstand := isStandIn_of_isSurrogate hs
  cases hc with
  | plain hs' => cases hs'.symm.trans hstand
  | simple hs' => cases hs'.symm.trans hstand
  | unicode hn => rw [hn]
  | pair hs' => cases hs'.symm.trans hstand

/-- A text as it is read back: two halves of a pair that stood side by side are one character. -/
def paired : List Char → List Char
  | high :: low :: rest =>
    if isHighSurrogate (codeOf high) && isLowSurrogate (codeOf low) then
      Char.ofNat (pairCode (codeOf high) (codeOf low)) :: paired rest
    else high :: paired (low :: rest)
  | cs => cs

theorem Limits.Takes.of_cons (h : l.Takes (c :: text)) : l.Takes [c] ∧ l.Takes text := by
  rcases h with h | h
  · exact ⟨.inl h, .inl h⟩
  · rw [List.any_cons, Bool.or_eq_false_iff] at h
    exact ⟨.inr (by simpa using h.1), .inr h.2⟩

theorem paired_of_not_standIn (h : text.any isStandIn = false) : paired text = text := by
  fun_induction paired text with
  | case1 high low rest hpair ih =>
    have hhigh := isSurrogate_of_high (Bool.and_eq_true_iff.mp hpair).1
    simp [isStandIn_of_isSurrogate hhigh] at h
  | case2 high low rest hpair ih =>
    rw [ih (Bool.or_eq_false_iff.mp h).2]
  | case3 cs => rfl

theorem paired_ne_nil (h : text ≠ []) : paired text ≠ [] := by
  fun_cases paired text with
  | case1 => exact List.cons_ne_nil _ _
  | case2 => exact List.cons_ne_nil _ _
  | case3 => exact h

theorem length_charText_pos (ascii : Bool) (c : Char) : 0 < (charText ascii c).length := by
  generalize hcs : charText ascii c = cs
  cases hcs ▸ charText_spelling ascii c with
  | plain => exact Nat.zero_lt_succ _
  | simple => exact Nat.zero_lt_succ _
  | unicode => exact Nat.zero_lt_succ _
  | pair => exact Nat.zero_lt_succ _

theorem textBody_textChars (ascii : Bool) (hl : l.Takes text) (hfuel : text.length < fuel) :
    textBody l whole fuel (text.flatMap (charText ascii) ++ '"' :: tail) =
      .ok (paired text, tail) := by
  have hquote : StartsNoLow ('"' :: tail) := by
    intro second heq
    cases heq
  have hend : ∀ more : List Char, more ++ '"' :: tail ≠ [] := by simp
  fun_induction paired text generalizing fuel with
  | case1 high low rest hpair ih =>
    obtain ⟨hhigh, hlow⟩ := Bool.and_eq_true_iff.mp hpair
    obtain ⟨fuel, rfl⟩ := Nat.exists_eq_add_of_lt hfuel
    rw [List.flatMap_cons, List.flatMap_cons,
      (charText_spelling ascii high).eq_unicode (isSurrogate_of_high hhigh),
      (charText_spelling ascii low).eq_unicode (isSurrogate_of_low hlow), List.append_assoc,
      List.append_assoc]
    refine textBody_pair hhigh hlow (hend _) (ih hl.of_cons.2.of_cons.2 ?_)
    simp only [List.length_cons]
    omega
  | case2 high low rest hpair ih =>
    obtain ⟨fuel, rfl⟩ := Nat.exists_eq_add_of_lt hfuel
    rw [List.flatMap_cons, List.append_assoc]
    refine (charText_spelling ascii high).textBody hl.of_cons.1 (hend _) (fun hhigh => ?_)
      (ih hl.of_cons.2 ?_)
    · rw [hhigh, Bool.true_and, Bool.not_eq_true] at hpair
      rw [List.flatMap_cons, List.append_assoc]
      exact (charText_spelling ascii low).startsNoLow hpair (hend _)
    · simp only [List.length_cons]
      omega
  | case3 cs hshort =>
    obtain ⟨fuel, rfl⟩ := Nat.exists_eq_add_of_lt hfuel
    have hclosed : ∀ fuel, textBody l whole (fuel + 1) ('"' :: tail) = .ok ([], tail) := by
      simp [textBody]
    rcases cs with _ | ⟨c, _ | ⟨c', rest⟩⟩
    · exact hclosed _
    · rw [List.flatMap_singleton, List.length_singleton, Nat.add_comm 1 fuel]
      exact (charText_spelling ascii c).textBody hl (List.cons_ne_nil _ _) (fun _ => hquote)
        (hclosed fuel)
    · exact absurd rfl (hshort c c' rest)

theorem length_textChars (ascii : Bool) (text : List Char) :
    text.length ≤ (text.flatMap (charText ascii)).length := by
  induction text with
  | nil => exact Nat.le_refl 0
  | cons c rest ih =>
    have hpos := length_charText_pos ascii c
    rw [List.flatMap_cons, List.length_append, List.length_cons]
    omega

end JudgedLint.Json
