import JudgedLint.Yaml.Scalar
import JudgedLint.Proofs.Except
import JudgedLint.Proofs.Yaml.Analysis

/-! Reading quoted scalars, in single and in double quotes: for each thing that may stand between the
quotes what is read of it, in front of anything that is read in turn. -/
namespace JudgedLint.Yaml

open Scalar

def quoteOf (double : Bool) : Char := if double then '"' else Char.ofNat 39

/-- What stands between the quotes up to the closing one is read as the given text. Text and gaps are
read in turn, so the text up to the first gap comes from one reader and the rest from the other. -/
def QuotedReads (double : Bool) (src out : List Char) : Prop :=
  ∀ (tail : List Char) (i k at_ fuel : Nat), tail.headD endChar ≠ quoteOf double →
    (src ++ quoteOf double :: tail).length < fuel →
      ∃ text more c j m b, k ≤ m ∧
        quotedText double fuel ⟨src ++ quoteOf double :: tail, i, k, at_⟩ = .ok (text, c) ∧
        out = text ++ more ∧ c.rest.length ≤ (src ++ quoteOf double :: tail).length ∧
        ∀ fuel', c.rest.length < fuel' →
          quotedParts double (quoteOf double) fuel' c = .ok (more, ⟨tail, j, m, b⟩)

variable {double : Bool} {c : Char} {src out rest tail : List Char} {n i k at_ fuel : Nat}

theorem span_nothing (h : isQuotedPlain c = false) :
    (Cursor.mk (c :: rest) i k at_).spanWhile isQuotedPlain = ([], ⟨c :: rest, i, k, at_⟩) :=
  Cursor.spanNothing h i k at_

theorem ne_of_isGap {d : Char} (h : isGap c = true) (hd : isGap d = false) : c ≠ d := by
  rintro rfl
  exact Bool.false_ne_true (hd.symm.trans h)

theorem toNat_beq_39 (h : c ≠ Char.ofNat 39) : (c.toNat == 39) = false :=
  beq_eq_false_iff_ne.mpr fun hcode => h (Char.toNat_inj.mp hcode)

theorem quotedText_gap (h : isGap c = true) :
    quotedText double (fuel + 1) ⟨c :: rest, i, k, at_⟩ = .ok ([], ⟨c :: rest, i, k, at_⟩) := by
  have hplain : isQuotedPlain c = false := by simp [isQuotedPlain, h]
  have hdouble : (c == '"') = false := beq_eq_false_iff_ne.mpr (ne_of_isGap h (by decide))
  have hback : (c == '\\') = false := beq_eq_false_iff_ne.mpr (ne_of_isGap h (by decide))
  rw [quotedText, span_nothing hplain]
  simp [toNat_beq_39 (ne_of_isGap h (by decide)), hdouble, hback]

theorem quotedText_quote (h : tail.headD endChar ≠ quoteOf double) :
    quotedText double (fuel + 1) ⟨quoteOf double :: tail, i, k, at_⟩ =
      .ok ([], ⟨quoteOf double :: tail, i, k, at_⟩) := by
  have hpeek : (Cursor.mk (quoteOf double :: tail) i k at_).peekAt 1 = tail.headD endChar := rfl
  cases double with
  | true =>
    rw [quotedText, span_nothing (by decide)]
    rfl
  | false =>
    rw [quotedText, span_nothing (by decide)]
    simp only [hpeek, toNat_beq_39 h]
    rfl

theorem cons_more (taken text : List Char) (x : Except Fault (List Char × Cursor)) :
    (do let r ← x; return (c :: taken ++ text ++ r.1, r.2) : Except Fault (List Char × Cursor)) =
      (do let r ← x; return (taken ++ text ++ r.1, r.2) : Except Fault (List Char × Cursor)).map
        fun r => (c :: r.1, r.2) := by
  cases x <;> rfl

theorem quotedText_plain (hplain : isQuotedPlain c = true) (hinert : isInert c = true) :
    quotedText double (fuel + 1) ⟨c :: rest, i, k, at_⟩ =
      (quotedText double (fuel + 1) ⟨rest, i + 1, k, at_ + 1⟩).map fun r => (c :: r.1, r.2) := by
  have hspan : (Cursor.mk (c :: rest) i k at_).spanWhile isQuotedPlain =
      (c :: ((Cursor.mk rest (i + 1) k (at_ + 1)).spanWhile isQuotedPlain).1,
        ((Cursor.mk rest (i + 1) k (at_ + 1)).spanWhile isQuotedPlain).2) := by
    simp only [Cursor.spanWhile, List.takeWhile_cons, hplain, if_true, List.length_cons, Cursor.forward,
      Cursor.next_inert hinert]
  rw [quotedText, quotedText, hspan]
  -- What comes behind the plain characters is the same for both sides: `c` is only one more of them.
  generalize (Cursor.mk rest (i + 1) k (at_ + 1)).spanWhile isQuotedPlain = taken
  obtain ⟨taken, c'⟩ := taken
  dsimp only
  cases !double && c'.peek.toNat == 39 && (c'.peekAt 1).toNat == 39 with
  | true => exact cons_more taken _ _
  | false =>
  cases double && c'.peek.toNat == 39 || !double && (c'.peek == '"' || c'.peek == '\\') with
  | true => exact cons_more taken _ _
  | false =>
  cases double && c'.peek == '\\' with
  | false => rfl
  | true =>
  simp only [Bool.false_eq_true, if_false, if_true]
  cases escape? c'.next.peek with
  | some code => exact cons_more taken _ _
  | none =>
  cases escapeWidth? c'.next.peek with
  | some width =>
    dsimp only
    cases Text.hexNumber? (c'.next.next.rest.take width) with
    | none => rfl
    | some code =>
    cases (c'.next.next.rest.take width).length == width with
    | false => rfl
    | true =>
      dsimp only
      split
      · rfl
      · exact cons_more taken _ _
  | none =>
    dsimp only
    split
    · cases quotedBreaks (c'.next.lineBreak.2.rest.length + 1) c'.next.lineBreak.2 with
      | error f => rfl
      | ok r => exact cons_more taken _ _
    · rfl

theorem more_eq {text : List Char} {c' c'' : Cursor} (h : c' = c'') :
    (do let r ← quotedText double fuel c'; return ([] ++ text ++ r.1, r.2) :
      Except Fault (List Char × Cursor)) =
      (quotedText double fuel c'').map fun r => (text ++ r.1, r.2) := by
  rw [h]
  cases quotedText double fuel c'' <;> rfl

/-! What can be put in front of something that is read: nothing, plain characters, things that stand
for a text, and gaps. -/

namespace QuotedReads

theorem nil (double : Bool) : QuotedReads double [] [] := by
  intro tail i k at_ fuel htail hfuel
  obtain ⟨fuel, rfl⟩ : ∃ left, fuel = left + 1 := ⟨fuel - 1, by omega⟩
  refine ⟨[], [], ⟨quoteOf double :: tail, i, k, at_⟩, i + 1, k, at_ + 1, Nat.le_refl k,
    quotedText_quote htail, rfl, Nat.le_refl _, ?_⟩
  intro fuel' hfuel'
  obtain ⟨fuel', rfl⟩ : ∃ left, fuel' = left + 1 := ⟨fuel' - 1, by omega⟩
  have hinert : isInert (quoteOf double) = true := by cases double <;> decide
  have hpeek : (Cursor.mk (quoteOf double :: tail) i k at_).peek == quoteOf double := beq_self_eq_true _
  rw [quotedParts, if_pos hpeek, Cursor.next_inert hinert]

theorem plain (hplain : isQuotedPlain c = true) (hinert : isInert c = true)
    (h : QuotedReads double src out) : QuotedReads double (c :: src) (c :: out) := by
  intro tail i k at_ fuel htail hfuel
  obtain ⟨fuel, rfl⟩ : ∃ left, fuel = left + 1 := ⟨fuel - 1, by omega⟩
  obtain ⟨text, more, c', j, m, b, hline, htext, rfl, hlength, hparts⟩ :=
    h tail (i + 1) k (at_ + 1) (fuel + 1) htail (by simp at hfuel ⊢; omega)
  refine ⟨c :: text, more, c', j, m, b, hline, ?_, rfl, by simp at hlength ⊢; omega, hparts⟩
  rw [List.cons_append, quotedText_plain hplain hinert, htext]
  rfl

theorem special (spelling text : List Char)
    (hspelling : ∀ tail i k at_ fuel, ∃ j m b, k ≤ m ∧
      quotedText double (fuel + 1) ⟨spelling ++ (src ++ quoteOf double :: tail), i, k, at_⟩ =
        (quotedText double fuel ⟨src ++ quoteOf double :: tail, j, m, b⟩).map
          fun r => (text ++ r.1, r.2))
    (hne : spelling ≠ []) (h : QuotedReads double src out) :
    QuotedReads double (spelling ++ src) (text ++ out) := by
  intro tail i k at_ fuel htail hfuel
  have hpos : 0 < spelling.length := List.length_pos_iff.mpr hne
  obtain ⟨fuel, rfl⟩ : ∃ left, fuel = left + 1 := ⟨fuel - 1, by omega⟩
  obtain ⟨j', m', b', hline', hspelled⟩ := hspelling tail i k at_ fuel
  obtain ⟨text', more, c', j, m, b, hline, htext, rfl, hlength, hparts⟩ :=
    h tail j' m' b' fuel htail (by simp at hfuel ⊢; omega)
  refine ⟨text ++ text', more, c', j, m, b, by omega, ?_, by simp, by simp at hlength ⊢; omega,
    hparts⟩
  rw [List.append_assoc, hspelled, htext]
  rfl

theorem gap {spaces text : List Char}
    (hspaces : ∀ tail i k at_, ∃ j m b, k ≤ m ∧
      quotedSpaces ⟨spaces ++ (src ++ quoteOf double :: tail), i, k, at_⟩ =
        .ok (text, ⟨src ++ quoteOf double :: tail, j, m, b⟩))
    (hhead : ∃ c, spaces.head? = some c ∧ isGap c = true) (h : QuotedReads double src out) :
    QuotedReads double (spaces ++ src) (text ++ out) := by
  obtain ⟨c, hhead, hc⟩ := hhead
  obtain ⟨spaces, rfl⟩ := List.head?_eq_some_iff.mp hhead
  intro tail i k at_ fuel htail hfuel
  obtain ⟨fuel, rfl⟩ : ∃ left, fuel = left + 1 := ⟨fuel - 1, by omega⟩
  obtain ⟨j', m', b', hline', hspaces⟩ := hspaces tail i k at_
  obtain ⟨text', more, c', j, m, b, hline, htext, rfl, hlength, hparts⟩ :=
    h tail j' m' b' ((src ++ quoteOf double :: tail).length + 1) htail (by omega)
  refine ⟨[], text ++ (text' ++ more), ⟨c :: spaces ++ src ++ quoteOf double :: tail, i, k, at_⟩, j, m, b,
    by omega, quotedText_gap hc, rfl, Nat.le_refl _, ?_⟩
  intro fuel' hfuel'
  obtain ⟨fuel', rfl⟩ : ∃ left, fuel' = left + 1 := ⟨fuel' - 1, by omega⟩
  have hopen : ((Cursor.mk (c :: spaces ++ src ++ quoteOf double :: tail) i k at_).peek ==
      quoteOf double) = false :=
    beq_eq_false_iff_ne.mpr (ne_of_isGap hc (by cases double <;> decide))
  have hmore := hparts fuel' (by simp at hfuel' hlength ⊢; omega)
  rw [quotedParts, hopen, List.append_assoc, hspaces]
  simp only [bind, Except.bind, Bool.false_eq_true, if_false, htext, hmore, pure, Except.pure,
    List.append_assoc]

theorem doubled (h : QuotedReads false src out) :
    QuotedReads false (Char.ofNat 39 :: Char.ofNat 39 :: src) (Char.ofNat 39 :: out) := by
  have hne : [Char.ofNat 39, Char.ofNat 39] ≠ [] := by decide
  refine special [Char.ofNat 39, Char.ofNat 39] [Char.ofNat 39] (fun tail i k at_ fuel => ?_) hne h
  refine ⟨i + 2, k, at_ + 2, Nat.le_refl k, ?_⟩
  have hforward : (Cursor.mk ([Char.ofNat 39, Char.ofNat 39] ++ (src ++ quoteOf false :: tail)) i k
      at_).forward 2 = ⟨src ++ quoteOf false :: tail, i + 2, k, at_ + 2⟩ :=
    Cursor.forward_inert (List.all_eq_true.mp (by decide))
  rw [List.cons_append, quotedText, span_nothing (by decide)]
  dsimp only
  rw [if_pos (by rfl)]
  exact more_eq hforward

/-- A mark that has no meaning in this kind of quotes. -/
theorem mark (hc : if double then c = Char.ofNat 39 else c = '"' ∨ c = '\\')
    (h : QuotedReads double src out) : QuotedReads double (c :: src) (c :: out) := by
  refine special [c] [c] (fun tail i k at_ fuel => ?_) (List.cons_ne_nil c []) h
  refine ⟨i + 1, k, at_ + 1, Nat.le_refl k, ?_⟩
  have hplain : isQuotedPlain c = false := by
    cases double with
    | true =>
      obtain rfl : c = Char.ofNat 39 := hc
      decide
    | false => rcases (hc : c = '"' ∨ c = '\\') with rfl | rfl <;> decide
  have hinert : isInert c = true := by
    cases double with
    | true =>
      obtain rfl : c = Char.ofNat 39 := hc
      decide
    | false => rcases (hc : c = '"' ∨ c = '\\') with rfl | rfl <;> decide
  rw [List.cons_append, quotedText, span_nothing hplain]
  dsimp only
  rw [if_neg, if_pos]
  · exact more_eq (Cursor.next_inert hinert)
  · cases double with
    | true =>
      obtain rfl : c = Char.ofNat 39 := hc
      rfl
    | false => rcases (hc : c = '"' ∨ c = '\\') with rfl | rfl <;> rfl
  · cases double with
    | true => simp
    | false => rcases (hc : c = '"' ∨ c = '\\') with rfl | rfl <;> simp

end QuotedReads

theorem of_not_isGap (h : isGap c = false) :
    isSpaceOrTab c = false ∧ isEnd c = false ∧ isBreak c = false := by
  simp only [isGap, isSpaceBreakOrEnd, isBreakOrEnd, Bool.or_eq_false_iff] at h
  exact ⟨by rw [isSpaceOrTab, h.1, h.2.1]; rfl, h.2.2.1, h.2.2.2⟩

theorem quotedSpaces_blanks (h : isGap (rest.headD endChar) = false) :
    quotedSpaces ⟨List.replicate n ' ' ++ rest, i, k, at_⟩ =
      .ok (List.replicate n ' ', ⟨rest, i + n, k, at_ + n⟩) := by
  obtain ⟨hblank, hend, hbreak⟩ := of_not_isGap h
  rw [quotedSpaces, Cursor.spanBlanks (by rfl) hblank]
  simp only [Cursor.peek_mk, hend, hbreak, Bool.false_eq_true, if_false]

/-- The line ends that are read as themselves. -/
def isFaithfulBreak (c : Char) : Bool := isTextBreak c && c.toNat != 0x85

theorem isFaithfulBreak_cases (h : isFaithfulBreak c = true) :
    c = '\n' ∨ c = Char.ofNat 0x2028 ∨ c = Char.ofNat 0x2029 := by
  simp only [isFaithfulBreak, isTextBreak, Bool.and_eq_true, Bool.or_eq_true, beq_iff_eq, bne_iff_ne,
    ← Char.toNat_inj] at h ⊢
  simp at h ⊢
  omega

theorem of_isFaithfulBreak (h : isFaithfulBreak c = true) :
    isSpaceOrTab c = false ∧ isEnd c = false ∧ isBreak c = true ∧ c ≠ '-' ∧ c ≠ '.' := by
  rcases isFaithfulBreak_cases h with rfl | rfl | rfl <;> decide

theorem lineBreak_faithful (h : isFaithfulBreak c = true) :
    (Cursor.mk (c :: rest) i k at_).lineBreak = ([c], ⟨rest, i + 1, k + 1, 0⟩) := by
  rcases isFaithfulBreak_cases h with rfl | rfl | rfl <;> rfl

theorem quotedBreaks_run (hn : 0 < n) (h : isGap (rest.headD endChar) = false) (breaks : List Char) :
    ∀ fuel i k at_ : Nat, breaks.length < fuel → (∀ c ∈ breaks, isFaithfulBreak c = true) →
      ∃ j m b, k ≤ m ∧ quotedBreaks fuel ⟨breaks ++ (List.replicate n ' ' ++ rest), i, k, at_⟩ =
        .ok (breaks, ⟨rest, j, m, b⟩) := by
  obtain ⟨hblank, hend, hbreak⟩ := of_not_isGap h
  induction breaks with
  | nil =>
    intro fuel i k at_ hfuel _
    obtain ⟨fuel, rfl⟩ : ∃ left, fuel = left + 1 := ⟨fuel - 1, by simp at hfuel; omega⟩
    obtain ⟨n, rfl⟩ : ∃ left, n = left + 1 := ⟨n - 1, by omega⟩
    have hseparator :
        (Cursor.mk (List.replicate (n + 1) ' ' ++ rest) i k at_).atSeparator = false := by
      simp [Cursor.atSeparator, List.replicate_succ]
    refine ⟨i + (n + 1), k, at_ + (n + 1), Nat.le_refl k, ?_⟩
    rw [List.nil_append, quotedBreaks, hseparator, Cursor.skipWhile, Cursor.spanBlanks (by rfl) hblank]
    simp only [Cursor.peek_mk, hbreak, Bool.false_eq_true, if_false]
  | cons c breaks ih =>
    intro fuel i k at_ hfuel hbreaks
    obtain ⟨fuel, rfl⟩ : ∃ left, fuel = left + 1 := ⟨fuel - 1, by simp at hfuel; omega⟩
    have hc := hbreaks c List.mem_cons_self
    obtain ⟨hnoBlank, _, hisBreak, hdash, hdot⟩ := of_isFaithfulBreak hc
    have hseparator : (Cursor.mk (c :: (breaks ++ (List.replicate n ' ' ++ rest))) i k at_).atSeparator =
        false := by
      simp [Cursor.atSeparator, hdash, hdot]
    have hskip : (Cursor.mk (c :: (breaks ++ (List.replicate n ' ' ++ rest))) i k at_).skipWhile
        isSpaceOrTab = ⟨c :: (breaks ++ (List.replicate n ' ' ++ rest)), i, k, at_⟩ :=
      congrArg Prod.snd (Cursor.spanNothing hnoBlank i k at_)
    obtain ⟨j, m, b, hline, hmore⟩ := ih fuel (i + 1) (k + 1) 0 (by simp at hfuel; omega)
      fun d hd => hbreaks d (List.mem_cons_of_mem _ hd)
    refine ⟨j, m, b, by omega, ?_⟩
    rw [List.cons_append, quotedBreaks, hseparator, hskip]
    simp only [Cursor.peek_mk, List.headD_cons, hisBreak, Bool.false_eq_true, if_false, if_true,
      lineBreak_faithful hc, hmore, bind, Except.bind, pure, Except.pure, List.cons_append,
      List.nil_append]

/-- Of several breaks a line end in front vanishes, and one alone stands for a blank. -/
theorem quotedSpaces_break (hc : isFaithfulBreak c = true) {breaks : List Char} {next : Cursor}
    (h : quotedBreaks (rest.length + 1) ⟨rest, i + 1, k + 1, 0⟩ = .ok (breaks, next)) :
    quotedSpaces ⟨c :: rest, i, k, at_⟩ =
      .ok (if c = '\n' then if breaks = [] then [' '] else breaks else c :: breaks, next) := by
  obtain ⟨hnoBlank, hend, hisBreak, _⟩ := of_isFaithfulBreak hc
  have hspan : (Cursor.mk (c :: rest) i k at_).spanWhile isSpaceOrTab = ([], ⟨c :: rest, i, k, at_⟩) :=
    Cursor.spanNothing hnoBlank i k at_
  rw [quotedSpaces, hspan]
  simp only [Cursor.peek_mk, List.headD_cons, hend, hisBreak, Bool.false_eq_true, if_false,
    if_true, lineBreak_faithful hc, h, bind, Except.bind, pure, Except.pure]
  by_cases hline : c = '\n'
  · subst hline
    cases breaks <;> rfl
  · simp [hline]

/-- A run of breaks is read as itself if one that starts with a line end has a further one in front. -/
theorem quotedSpaces_breaks (hn : 0 < n) (h : isGap (rest.headD endChar) = false) {breaks : List Char}
    (hbreaks : ∀ d ∈ c :: breaks, isFaithfulBreak d = true) (i k at_ : Nat) :
    ∃ j m b, k ≤ m ∧ quotedSpaces ⟨(if c == '\n' then ['\n'] else []) ++
        (c :: breaks ++ (List.replicate n ' ' ++ rest)), i, k, at_⟩ =
      .ok (c :: breaks, ⟨rest, j, m, b⟩) := by
  have hc := hbreaks c List.mem_cons_self
  by_cases hline : c = '\n'
  · subst hline
    obtain ⟨j, m, b, hbelow, hmore⟩ := quotedBreaks_run hn h ('\n' :: breaks)
      (('\n' :: breaks ++ (List.replicate n ' ' ++ rest)).length + 1) (i + 1) (k + 1) 0
      (by simp only [List.length_append, List.length_cons, List.length_replicate]; omega) hbreaks
    exact ⟨j, m, b, by omega, (quotedSpaces_break hc hmore).trans (by simp)⟩
  · obtain ⟨j, m, b, hbelow, hmore⟩ := quotedBreaks_run hn h breaks
      ((breaks ++ (List.replicate n ' ' ++ rest)).length + 1) (i + 1) (k + 1) 0
      (by simp only [List.length_append, List.length_replicate]; omega)
      fun d hd => hbreaks d (List.mem_cons_of_mem _ hd)
    rw [if_neg (by simpa using hline), List.nil_append, List.cons_append]
    exact ⟨j, m, b, by omega, (quotedSpaces_break hc hmore).trans (by simp [hline])⟩

theorem quotedSpaces_line (hn : 0 < n) (h : isGap (rest.headD endChar) = false) (i k at_ : Nat) :
    ∃ j m b, k ≤ m ∧ quotedSpaces ⟨lineStart n ++ rest, i, k, at_⟩ = .ok ([' '], ⟨rest, j, m, b⟩) := by
  obtain ⟨j, m, b, hbelow, hmore⟩ := quotedBreaks_run hn h []
    ((List.replicate n ' ' ++ rest).length + 1) (i + 1) (k + 1) 0 (by simp) (by simp)
  exact ⟨j, m, b, by omega, quotedSpaces_break (by decide) hmore⟩

/-- What stands between the quotes, or the closing quote, is no gap at first. -/
def Opens (double : Bool) (src : List Char) : Prop := isGap (src.headD (quoteOf double)) = false

theorem opens_nil : Opens double [] := by
  unfold Opens
  cases double <;> decide

theorem Opens.head (h : Opens double src) (tail : List Char) :
    isGap ((src ++ quoteOf double :: tail).headD endChar) = false := by
  cases src <;> exact h

namespace QuotedReads

theorem blanks (hn : 0 < n) (hopens : Opens double src) (h : QuotedReads double src out) :
    QuotedReads double (List.replicate n ' ' ++ src) (List.replicate n ' ' ++ out) := by
  obtain ⟨n, rfl⟩ : ∃ left, n = left + 1 := ⟨n - 1, by omega⟩
  exact gap (fun tail i k at_ => ⟨_, _, _, Nat.le_refl k, quotedSpaces_blanks (hopens.head tail)⟩)
    ⟨' ', rfl, by decide⟩ h

theorem line (hn : 0 < n) (hopens : Opens double src) (h : QuotedReads double src out) :
    QuotedReads double (lineStart n ++ src) (' ' :: out) :=
  gap (fun tail i k at_ => quotedSpaces_line hn (hopens.head tail) i k at_) ⟨'\n', rfl, by decide⟩ h

theorem breaks (hn : 0 < n) (hopens : Opens double src) {run : List Char}
    (hrun : ∀ d ∈ c :: run, isFaithfulBreak d = true) (h : QuotedReads double src out) :
    QuotedReads double ((if c == '\n' then ['\n'] else []) ++ (c :: run) ++ List.replicate n ' ' ++ src)
      (c :: run ++ out) := by
  refine gap (fun tail i k at_ => ?_) ?_ h
  · rw [List.append_assoc, List.append_assoc]
    exact quotedSpaces_breaks hn (hopens.head tail) hrun i k at_
  · cases hline : c == '\n' with
    | true => exact ⟨'\n', rfl, by decide⟩
    | false =>
      refine ⟨c, rfl, ?_⟩
      have hbreak := (of_isFaithfulBreak (hrun c List.mem_cons_self)).2.2.1
      simp [isGap, isSpaceBreakOrEnd, isBreakOrEnd, hbreak]

end QuotedReads

/-- A quoted scalar is read up to its closing quote. -/
theorem quoted_reads (h : QuotedReads double src out) (htail : tail.headD endChar ≠ quoteOf double)
    (i k at_ : Nat) : ∃ j m b, k ≤ m ∧
      quoted double ⟨quoteOf double :: (src ++ quoteOf double :: tail), i, k, at_⟩ =
        .ok (out, ⟨tail, j, m, b⟩) := by
  have hinert : isInert (quoteOf double) = true := by cases double <;> decide
  obtain ⟨text, more, c, j, m, b, hline, htext, rfl, hlength, hparts⟩ := h tail (i + 1) k (at_ + 1)
    ((src ++ quoteOf double :: tail).length + 1) htail (Nat.lt_succ_self _)
  refine ⟨j, m, b, hline, ?_⟩
  rw [quoted, Cursor.next_inert hinert, Cursor.peek_mk]
  simp only [List.headD_cons, htext, hparts (c.rest.length + 2) (by omega), bind, Except.bind, pure,
    Except.pure]

end JudgedLint.Yaml
