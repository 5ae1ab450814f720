import JudgedLint.Proofs.Yaml.Double
import JudgedLint.Proofs.Yaml.Single
import JudgedLint.Proofs.Yaml.Tokens
import JudgedLint.Yaml.Value

/-! Data that a printer writes without tags and labels, and the tokens that are read of it. -/
namespace JudgedLint.Yaml

open Lexer

variable {n : Nat} {c : Char} {cs src : List Char} {d : Datum} {tag : Tag} {text : String}

/-- A scalar that is written without a tag, in a way that keeps it. -/
structure LastingScalar (d : Datum) (tag : Tag) (text : String) : Prop where
  written : scalarText? d = some (tag, text)
  reads : scalarDatum tag text = .ok d
  untagged : tag = .str ∨ text ≠ "" ∧ Tag.ofPlain text = tag ∧ (analyze text.toList).plain = true
  faithful : (analyze text.toList).single = true → ∀ c ∈ text.toList, c.toNat ≠ 0x85

def styleOf (tag : Tag) (text : String) : Style :=
  if Tag.ofPlain text == tag && (analyze text.toList).plain then .plain
  else if (analyze text.toList).single then .single else .double

/-- A scalar is read up to the next line. -/
def TokenReads (n : Nat) (src : List Char) (t : Token) : Prop :=
  ∀ (m : Nat) (more : List Char) (tokens : List Token) (indents : List Int) (keyAllowed : Bool)
    (i k column : Nat), n < column → m ≤ n → Calm more → ∃ j l,
      Reaches (outside ⟨src ++ (lineStart m ++ more), i, k, column⟩ tokens n indents keyAllowed)
        (outside ⟨more, j, l, m⟩ (tokens ++ [t]) n indents true)

theorem PlainText.starts (h : PlainText (c :: cs)) (hsame : SameWord (c :: src) (c :: cs)) :
    isCalm c = true ∧ startsPlain false c (src.headD '\n') = true := by
  have hblank : c ≠ ' ' := fun hc => h.first (congrArg some hc)
  have hblock : isBlockSyntax none c cs.head? = false := (anyBetween_cons.mp h.clean).1
  have hordinary := h.ordinary c List.mem_cons_self
  have hcomment : c ≠ '#' := by
    rintro rfl
    cases hblock
  refine ⟨isCalm_of_isOrdinary hordinary hblank hcomment, ?_⟩
  have hgap : isGap c = false := by
    rw [isGap_of_isOrdinary hordinary.1 hordinary.2]
    exact beq_eq_false_iff_ne.mpr hblank
  rw [isBlockSyntax, Bool.or_eq_false_iff] at hblock
  obtain ⟨hindicator, hsign⟩ := hblock
  by_cases hc : (c == '?' || c == ':' || c == '-') = true
  · rw [hc, Bool.true_and] at hsign
    obtain ⟨d, rest, rfl, hd⟩ : ∃ d rest, cs = d :: rest ∧ isGap d = false := by
      cases cs with
      | nil => cases hsign
      | cons d rest => exact ⟨d, rest, rfl, hsign⟩
    have hafter : isGap (src.headD '\n') = false := by
      obtain ⟨word, tail, rest', hne, hsrc, hcs, hrest⟩ := hsame
      obtain ⟨c', word, rfl⟩ := List.exists_cons_of_ne_nil hne
      cases word with
      | nil =>
        cases hcs
        obtain rfl := hrest d rfl
        cases hd
      | cons e word =>
        cases hsrc
        cases hcs
        exact hd
    rw [startsPlain, hafter]
    simp only [Bool.or_eq_true, beq_iff_eq] at hc
    rcases hc with (rfl | rfl) | rfl <;> simp
  · simp only [Bool.or_eq_true, beq_iff_eq, not_or] at hc
    have hplain : ("-?:,[]\x7b\x7d#&*!|>\"%@".toList.contains c || c.toNat == 39 || c.toNat == 96) =
        false := by
      simp [isIndicator] at hindicator
      simp [hc, hindicator]
    rw [startsPlain, hplain, hgap]
    rfl

theorem styleOf_cases (tag : Tag) (text : String) :
    (styleOf tag text = .plain ∧ Tag.ofPlain text = tag ∧ (analyze text.toList).plain = true) ∨
    (styleOf tag text = .single ∧ (analyze text.toList).single = true) ∨
    styleOf tag text = .double := by
  unfold styleOf
  split
  · next h => simpa using h
  · split
    · next h => exact .inr (.inl ⟨rfl, h⟩)
    · exact .inr (.inr rfl)

theorem writeScalar_eq (h : tag = .str ∨ styleOf tag text = .plain) (inMapping : Bool) (p : Page) :
    writeScalar ⟨some n, inMapping, false⟩ tag text p =
      match styleOf tag text with
      | .plain => writePlain (n + 2) true text.toList p
      | .single => writeSingle (n + 2) true text.toList p
      | _ => writeDouble (n + 2) true text.toList p := by
  unfold writeScalar styleOf at *
  cases hplain : Tag.ofPlain text == tag && (analyze text.toList).plain with
  | true => simp [hplain, deeper]
  | false =>
    rw [hplain] at h
    obtain rfl : tag = .str := by
      rcases h with h | h
      · exact h
      · split at h
        · contradiction
        · split at h <;> cases h
    cases hsingle : (analyze text.toList).single <;> simp [hplain, hsingle, deeper]

theorem isKept_quoted {double : Bool} (h : ∀ c ∈ src, isKept c = true) :
    ∀ c ∈ quoteOf double :: (src ++ [quoteOf double]), isKept c = true := by
  have hquote : isKept (quoteOf double) = true := by cases double <;> decide
  intro c hc
  rcases List.mem_cons.mp hc with rfl | hc
  · exact hquote
  rcases List.mem_append.mp hc with hc | hc
  · exact h c hc
  · rwa [List.mem_singleton.mp hc]

/-- A lasting scalar is written so that it is read back. -/
theorem writeScalar_reads (h : LastingScalar d tag text) (hn : n + 2 < lineWidth) (inMapping : Bool)
    (p : Page) : ∃ src, (writeScalar ⟨some n, inMapping, false⟩ tag text p).chars =
        p.chars ++ (p.gap ++ src) ∧ (∀ rest, Calm (src ++ rest)) ∧ (∀ c ∈ src, isKept c = true) ∧
      TokenReads n src (.scalar text (styleOf tag text)) ∧
      (writeScalar ⟨some n, inMapping, false⟩ tag text p).atIndent = false := by
  have huntagged : tag = .str ∨ styleOf tag text = .plain := by
    rcases h.untagged with h | ⟨_, hlooks, hplain⟩
    · exact .inl h
    · exact .inr (by simp [styleOf, hlooks, hplain])
  rw [writeScalar_eq huntagged]
  have hpos : 0 < n + 2 := Nat.succ_pos _
  rcases styleOf_cases tag text with ⟨hstyle, hlooks, hplain⟩ | ⟨hstyle, hsingle⟩ | hstyle
  · have hne : text.toList ≠ [] := by
      rintro hnil
      obtain rfl : text = "" := String.toList_eq_nil_iff.mp hnil
      rcases h.untagged with rfl | ⟨hne, _⟩
      · exact absurd hlooks (by decide)
      · exact hne rfl
    rw [hstyle]
    obtain ⟨src, hchars, hsame, hkept, hreads, hindent⟩ :=
      writePlain_reads hpos hne (plainText_of_analyze hne hplain) true p
    obtain ⟨c, cs, hcs⟩ := List.exists_cons_of_ne_nil hne
    rw [hcs] at hsame
    obtain ⟨src, rfl⟩ := List.head?_eq_some_iff.mp hsame.head
    have htext := plainText_of_analyze hne hplain
    rw [hcs] at htext
    obtain ⟨hcalm, hstarts⟩ := htext.starts hsame
    refine ⟨c :: src, hchars, fun _ => hcalm, hkept, ?_, hindent⟩
    intro m more tokens indents keyAllowed i k column hcolumn hm hmore
    have hreaches := @reaches_plain n i k m column src text.toList more c tokens indents keyAllowed hcalm
      hstarts hreads hcolumn hm hmore
    rwa [String.ofList_toList] at hreaches
  · rw [hstyle]
    obtain ⟨src, hchars, hkept, hreads, hindent⟩ :=
      writeSingle_reads hpos hsingle (h.faithful hsingle) true p
    refine ⟨_, hchars, fun _ => (by decide : isCalm (quoteOf false) = true), isKept_quoted hkept, ?_,
      hindent⟩
    intro m more tokens indents keyAllowed i k column hcolumn _ hmore
    have hreaches := @reaches_quoted n i k m column src text.toList more tokens indents keyAllowed false
      hreads hcolumn hmore
    rwa [String.ofList_toList] at hreaches
  · rw [hstyle]
    obtain ⟨src, hchars, hkept, hreads, hindent⟩ := writeDouble_reads hpos hn true text.toList p
    refine ⟨_, hchars, fun _ => (by decide : isCalm (quoteOf true) = true), isKept_quoted hkept, ?_,
      hindent⟩
    intro m more tokens indents keyAllowed i k column hcolumn _ hmore
    have hreaches := @reaches_quoted n i k m column src text.toList more tokens indents keyAllowed true
      hreads hcolumn hmore
    rwa [String.ofList_toList] at hreaches

end JudgedLint.Yaml
