import JudgedLint.Proofs.Json.Quoted
import JudgedLint.Proofs.Yaml.Page
import JudgedLint.Proofs.Yaml.Quoted
import Mathlib.Tactic.Ring

/-! Text in double quotes. Whatever is no plain character is written as an escape, and a line is
continued behind a backslash, so nothing depends on what a character stands beside but a blank: it
belongs to the gap up to the next character that is none. -/
namespace JudgedLint.Yaml

open Scalar Text

variable {n i k at_ fuel width count : Nat} {c e : Char} {rest src out tail : List Char}

/-! Escapes. -/

theorem foldl_upperHex (width n acc : Nat) :
    (upperHex width n).foldl (fun acc c => do return (← acc) * 16 + (← hexValue? c)) (some acc) =
      some (acc * 16 ^ width + n % 16 ^ width) := by
  induction width generalizing n with
  | zero => simp [upperHex, hexChars, Nat.mod_one]
  | succ width ih =>
    have hdigit : ∀ k < 16, hexValue? (hexDigit k).toUpper = some k := by decide
    have hsplit : upperHex (width + 1) n = upperHex width (n / 16) ++ [(hexDigit (n % 16)).toUpper] := by
      simp [upperHex, hexChars]
    have hmod : n % 16 ^ (width + 1) = n / 16 % 16 ^ width * 16 + n % 16 := by
      rw [Nat.pow_succ, Nat.mul_comm, Nat.mod_mul]
      omega
    rw [hsplit, List.foldl_append, ih, List.foldl_cons, List.foldl_nil,
      hdigit _ (Nat.mod_lt _ (by decide)), hmod]
    simp only [bind, Option.bind, pure, Option.some.injEq]
    ring

theorem length_upperHex (width n : Nat) : (upperHex width n).length = width := by
  rw [upperHex, List.length_map]
  induction width generalizing n with
  | zero => rfl
  | succ width ih => simp [hexChars, ih]

theorem hexNumber?_upperHex (hwidth : 0 < width) (h : n < 16 ^ width) :
    hexNumber? (upperHex width n) = some n := by
  have hne : upperHex width n ≠ [] := fun hnil => by
    have := length_upperHex width n
    rw [hnil] at this
    exact absurd this (by simpa using Nat.ne_of_lt hwidth)
  have hfold := foldl_upperHex width n 0
  rw [Nat.zero_mul, Nat.zero_add, Nat.mod_eq_of_lt h] at hfold
  rw [hexNumber?, numeral?, hfold]
  exact hne

theorem mem_upperHex (h : c ∈ upperHex width n) : ∃ k < 16, c = (hexDigit k).toUpper := by
  rw [upperHex, List.mem_map] at h
  obtain ⟨d, hd, rfl⟩ := h
  induction width generalizing n with
  | zero => cases hd
  | succ width ih =>
    rw [hexChars] at hd
    rcases List.mem_append.mp hd with hd | hd
    · exact ih hd
    · exact ⟨n % 16, Nat.mod_lt _ (by decide), by rw [List.mem_singleton.mp hd]⟩

theorem QuotedReads.letter {code : Nat} (he : escape? e = some code) (hinert : isInert e = true)
    (h : QuotedReads true src out) : QuotedReads true ('\\' :: e :: src) (Char.ofNat code :: out) := by
  refine special ['\\', e] [Char.ofNat code] (fun tail i k at_ fuel => ?_) (List.cons_ne_nil _ _) h
  refine ⟨i + 2, k, at_ + 2, Nat.le_refl k, ?_⟩
  have hnext : (Cursor.mk ('\\' :: (e :: (src ++ quoteOf true :: tail))) i k at_).next =
      ⟨e :: (src ++ quoteOf true :: tail), i + 1, k, at_ + 1⟩ := Cursor.next_inert (by decide)
  have hnext' : (Cursor.mk (e :: (src ++ quoteOf true :: tail)) (i + 1) k (at_ + 1)).next =
      ⟨src ++ quoteOf true :: tail, i + 2, k, at_ + 2⟩ := Cursor.next_inert hinert
  rw [List.cons_append, List.cons_append, List.nil_append, quotedText, span_nothing (by decide)]
  dsimp only
  rw [if_neg (by simp), if_neg (by simp), if_pos (by rfl), hnext]
  simp only [Cursor.peek_mk, List.headD_cons, he]
  exact more_eq hnext'

theorem isInert_upperHex (width n : Nat) : ∀ c ∈ upperHex width n, isInert c = true := by
  have hdigit : ∀ k < 16, isInert (hexDigit k).toUpper = true := by decide
  intro c hc
  obtain ⟨k, hk, rfl⟩ := mem_upperHex hc
  exact hdigit k hk

theorem QuotedReads.hex (he : escape? e = none) (hwidth : escapeWidth? e = some width)
    (hinert : isInert e = true) (hpos : 0 < width) (hn : n < 16 ^ width) (hcode : n < 0x110000)
    (h : QuotedReads true src out) :
    QuotedReads true ('\\' :: e :: upperHex width n ++ src) (charOfCode n :: out) := by
  refine special ('\\' :: e :: upperHex width n) [charOfCode n] (fun tail i k at_ fuel => ?_)
    (List.cons_ne_nil _ _) h
  refine ⟨i + 2 + width, k, at_ + 2 + width, Nat.le_refl k, ?_⟩
  have hnext : (Cursor.mk ('\\' :: (e :: (upperHex width n ++ (src ++ quoteOf true :: tail)))) i k
      at_).next = ⟨e :: (upperHex width n ++ (src ++ quoteOf true :: tail)), i + 1, k, at_ + 1⟩ :=
    Cursor.next_inert (by decide)
  have hnext' : (Cursor.mk (e :: (upperHex width n ++ (src ++ quoteOf true :: tail))) (i + 1) k
      (at_ + 1)).next = ⟨upperHex width n ++ (src ++ quoteOf true :: tail), i + 2, k, at_ + 2⟩ :=
    Cursor.next_inert hinert
  have hforward : (Cursor.mk (upperHex width n ++ (src ++ quoteOf true :: tail)) (i + 2) k
      (at_ + 2)).forward width = ⟨src ++ quoteOf true :: tail, i + 2 + width, k, at_ + 2 + width⟩ := by
    have hdigits := @Cursor.forward_inert (upperHex width n) (src ++ quoteOf true :: tail) (i + 2) k
      (at_ + 2) (isInert_upperHex width n)
    rwa [length_upperHex] at hdigits
  have htake : (upperHex width n ++ (src ++ quoteOf true :: tail)).take width = upperHex width n :=
    List.take_left' (length_upperHex width n)
  rw [List.cons_append, List.cons_append, quotedText, span_nothing (by decide)]
  dsimp only
  rw [if_neg (by simp), if_neg (by simp), if_pos (by rfl), hnext]
  simp only [Cursor.peek_mk, List.headD_cons, he, hwidth, hnext', htake, length_upperHex,
    hexNumber?_upperHex hpos hn, beq_self_eq_true, Nat.not_le.mpr hcode, if_false]
  exact more_eq hforward

theorem codeOf_lt (c : Char) : codeOf c < 0x110000 := by
  have hc : c.toNat < 0x110000 := by
    rcases c.valid with hlow | ⟨_, hhigh⟩
    · exact Nat.lt_trans hlow (by decide)
    · exact hhigh
  unfold codeOf
  split <;> omega

inductive Escape (n : Nat) : List Char → Prop
  | letter {e : Char} (he : escape? e = some n) (hinert : isInert e = true) (hkept : isKept e = true)
      (hsurrogate : isSurrogate n = false) : Escape n ['\\', e]
  | hex {e : Char} {width : Nat} (he : escape? e = none) (hwidth : escapeWidth? e = some width)
      (hinert : isInert e = true) (hkept : isKept e = true) (hpos : 0 < width)
      (hn : n < 0x110000 → n < 16 ^ width) : Escape n ('\\' :: e :: upperHex width n)

theorem escapeCode_escape (n : Nat) : Escape n (escapeCode n) := by
  unfold escapeCode
  split
  · next e hlookup =>
    have hletters : ∀ p ∈ ([(0, '0'), (7, 'a'), (8, 'b'), (9, 't'), (10, 'n'), (11, 'v'), (12, 'f'),
        (13, 'r'), (27, 'e'), (34, '"'), (92, '\\'), (0x85, 'N'), (0xA0, '_'), (0x2028, 'L'),
        (0x2029, 'P')] : List (Nat × Char)),
        escape? p.2 = some p.1 ∧ isInert p.2 = true ∧ isKept p.2 = true ∧ isSurrogate p.1 = false := by
      decide
    obtain ⟨_, _, hsplit, _⟩ := List.lookup_eq_some_iff.mp hlookup
    obtain ⟨he, hinert, hkept, hsurrogate⟩ := hletters (n, e) (hsplit ▸ by simp)
    exact .letter he hinert hkept hsurrogate
  · split
    · exact .hex (by decide) rfl (by decide) (by decide) (by decide) (by omega)
    · split
      · exact .hex (by decide) rfl (by decide) (by decide) (by decide) (by omega)
      · exact .hex (by decide) rfl (by decide) (by decide) (by decide) (by omega)

/-- A character is read back from its escape. -/
theorem QuotedReads.escape (c : Char) (h : QuotedReads true src out) :
    QuotedReads true (escapeCode (codeOf c) ++ src) (c :: out) := by
  have hlt := codeOf_lt c
  have hescape := escapeCode_escape (codeOf c)
  have hc := Json.charOfCode_codeOf c
  revert hlt hescape hc
  generalize escapeCode (codeOf c) = spelling
  generalize codeOf c = n
  intro hlt hescape hc
  cases hescape with
  | letter he hinert _ hsurrogate =>
    rw [charOfCode, hsurrogate] at hc
    exact hc ▸ h.letter he hinert
  | hex he hwidth hinert _ hpos hn => exact hc ▸ h.hex he hwidth hinert hpos (hn hlt) hlt

theorem isKept_escapeCode (n : Nat) : ∀ c ∈ escapeCode n, isKept c = true := by
  have hdigit : ∀ k < 16, isKept (hexDigit k).toUpper = true := by decide
  have hescape := escapeCode_escape n
  revert hescape
  generalize escapeCode n = spelling
  intro hescape c hc
  cases hescape with
  | letter _ _ hkept _ =>
    rcases List.mem_cons.mp hc with rfl | hc
    · decide
    · rwa [List.mem_singleton.mp hc]
  | hex _ _ _ hkept _ _ =>
    rcases List.mem_cons.mp hc with rfl | hc
    · decide
    rcases List.mem_cons.mp hc with rfl | hc
    · exact hkept
    · obtain ⟨k, hk, rfl⟩ := mem_upperHex hc
      exact hdigit k hk

theorem head_escapeCode (n : Nat) : (escapeCode n).head? = some '\\' := by
  have hescape := escapeCode_escape n
  revert hescape
  generalize escapeCode n = spelling
  intro hescape
  cases hescape <;> rfl

/-! Continued lines. -/

theorem QuotedReads.continued (hn : 0 < n) (hopens : Opens true src) (h : QuotedReads true src out) :
    QuotedReads true ('\\' :: lineStart n ++ src) out := by
  refine special ('\\' :: lineStart n) [] (fun tail i k at_ fuel => ?_) (List.cons_ne_nil _ _) h
  obtain ⟨j, m, b, hline, hbreaks⟩ := quotedBreaks_run hn (hopens.head tail) []
    ((List.replicate n ' ' ++ (src ++ quoteOf true :: tail)).length + 1) (i + 2) (k + 1) 0 (by simp)
    (by simp)
  refine ⟨j, m, b, by omega, ?_⟩
  have hnext : (Cursor.mk ('\\' :: (lineStart n ++ (src ++ quoteOf true :: tail))) i k at_).next =
      ⟨lineStart n ++ (src ++ quoteOf true :: tail), i + 1, k, at_ + 1⟩ := Cursor.next_inert (by decide)
  have hpeek : (lineStart n ++ (src ++ quoteOf true :: tail)).headD endChar = '\n' := rfl
  have hbreak : (Cursor.mk (lineStart n ++ (src ++ quoteOf true :: tail)) (i + 1) k (at_ + 1)).lineBreak =
      (['\n'], ⟨List.replicate n ' ' ++ (src ++ quoteOf true :: tail), i + 2, k + 1, 0⟩) := rfl
  have hescape : escape? '\n' = none := rfl
  have hwidth : escapeWidth? '\n' = none := rfl
  have hisBreak : isBreak '\n' = true := rfl
  rw [List.cons_append, quotedText, span_nothing (by decide)]
  dsimp only
  rw [if_neg (by simp), if_neg (by simp), if_pos (by rfl), hnext]
  simp only [Cursor.peek_mk, hpeek, hescape, hwidth, hisBreak, if_true, hbreak]
  rw [List.nil_append] at hbreaks
  simp only [hbreaks, bind, Except.bind]
  exact more_eq rfl

/-! Blanks. -/

/-- What is read in double quotes behind a character that may be a blank. -/
def BlankReads (src out : List Char) : Prop :=
  ∃ count src' out', src = List.replicate count ' ' ++ src' ∧ out = List.replicate count ' ' ++ out' ∧
    Opens true src' ∧ QuotedReads true src' out'

namespace BlankReads

theorem of_opens (hopens : Opens true src) (h : QuotedReads true src out) : BlankReads src out :=
  ⟨0, src, out, rfl, rfl, hopens, h⟩

theorem blank (h : BlankReads src out) : BlankReads (' ' :: src) (' ' :: out) := by
  obtain ⟨count, src', out', rfl, rfl, hopens, h⟩ := h
  exact ⟨count + 1, src', out', rfl, rfl, hopens, h⟩

theorem reads (h : BlankReads src out) : QuotedReads true src out := by
  obtain ⟨count, src', out', rfl, rfl, hopens, h⟩ := h
  cases count with
  | zero => exact h
  | succ count => exact .blanks (Nat.succ_pos count) hopens h

theorem of_cons (h : BlankReads (' ' :: src) (' ' :: out)) : BlankReads src out := by
  obtain ⟨count, src', out', hsrc, hout, hopens, h⟩ := h
  cases count with
  | zero =>
    cases hsrc
    cases hopens
  | succ count =>
    cases hsrc
    cases hout
    exact ⟨count, src', out', rfl, rfl, hopens, h⟩

end BlankReads

/-! Characters one by one. -/

theorem of_isVerbatim (h : isVerbatim c = true) :
    isKept c = true ∧ (c = ' ' ∨ c = Char.ofNat 39 ∨ isQuotedPlain c = true ∧ isInert c = true) := by
  constructor
  · simp only [isVerbatim, isKept, isAllowed, Bool.or_eq_true, Bool.and_eq_true, beq_iff_eq,
      decide_eq_true_eq, bne_iff_ne, ne_eq, ← Char.toNat_inj] at *
    simp at *
    omega
  · simp only [isVerbatim, isQuotedPlain, isInert, isGap, isSpaceBreakOrEnd, isBreakOrEnd, isEnd, endChar,
      isBreak, Bool.or_eq_true, Bool.and_eq_true, Bool.not_eq_true', Bool.or_eq_false_iff,
      beq_eq_false_iff_ne, decide_eq_true_eq, bne_iff_ne, ne_eq, ← Char.toNat_inj] at *
    simp at *
    omega

theorem QuotedReads.verbatim (h : isVerbatim c = true) (hblank : c ≠ ' ')
    (hreads : QuotedReads true src out) : QuotedReads true (c :: src) (c :: out) := by
  rcases (of_isVerbatim h).2 with rfl | rfl | ⟨hplain, hinert⟩
  · exact absurd rfl hblank
  · exact hreads.mark (show Char.ofNat 39 = Char.ofNat 39 from rfl)
  · exact hreads.plain hplain hinert

theorem opens_verbatim (h : isVerbatim c = true) (hblank : c ≠ ' ') : Opens true (c :: src) := by
  rcases (of_isVerbatim h).2 with rfl | rfl | ⟨hplain, _⟩
  · exact absurd rfl hblank
  · exact (by decide : isGap (Char.ofNat 39) = false)
  · simp only [isQuotedPlain, Bool.not_eq_true', Bool.or_eq_false_iff] at hplain
    exact hplain.2

/-- What has been written of a text in double quotes behind what was pending, with what is read of
it. Unless the line is full, a blank is written as it is. -/
def WrittenDouble (pending cs : List Char) (p q : Page) : Prop :=
  ∃ src, q.chars = p.chars ++ (pending.reverse ++ src) ∧ (∀ c ∈ src, isKept c = true) ∧
    BlankReads src cs ∧ (cs.head? ≠ some ' ' → Opens true src) ∧
    (cs.head? = some ' ' → p.column + pending.length ≤ lineWidth → src.head? = some ' ')

def continued (n : Nat) (cs : List Char) (p : Page) : Page :=
  { (p.put (cs ++ ['\\'])).indentTo n with afterGap := false, atIndent := false }

theorem chars_continued {p : Page} (h : p.atIndent = false) (n : Nat) (cs : List Char) :
    (continued n cs p).chars = p.chars ++ (cs ++ '\\' :: lineStart n) ∧
    (continued n cs p).column = n := by
  have hline := Page.indentTo_newLine (p := p.put (cs ++ ['\\'])) (n := n) (.inl h)
  refine ⟨?_, hline.column⟩
  rw [continued, Page.chars_flags, hline.chars, Page.chars_put]
  simp

theorem doubleFrom_cons (n : Nat) (split : Bool) (size index : Nat) (pending : List Char) (c : Char)
    (rest : List Char) (p : Page) : doubleFrom n split size index pending (c :: rest) p =
      if isVerbatim c then
        if (split && 0 < index && index + 1 < size) && (c == ' ' || pending.isEmpty) &&
            lineWidth < p.column + pending.length then
          doubleFrom n split size (index + 1) [c] rest
            (if c == ' ' then (continued n pending.reverse p).put ['\\']
              else continued n pending.reverse p)
        else doubleFrom n split size (index + 1) (c :: pending) rest p
      else
        doubleFrom n split size (index + 1) [] rest
          (if (split && 0 < index && index + 1 < size) &&
              lineWidth + 1 < ((p.put pending.reverse).put (escapeCode (codeOf c))).column then
            if rest.head? == some ' ' then
              (continued n [] ((p.put pending.reverse).put (escapeCode (codeOf c)))).put ['\\']
            else continued n [] ((p.put pending.reverse).put (escapeCode (codeOf c)))
          else (p.put pending.reverse).put (escapeCode (codeOf c))) := rfl

theorem opens_backslash : Opens true ('\\' :: src) := (by decide : isGap '\\' = false)

theorem isKept_continued (h : ∀ c ∈ src, isKept c = true) :
    ∀ c ∈ '\\' :: lineStart n ++ src, isKept c = true := by
  intro c hc
  rcases List.mem_append.mp hc with hc | hc
  · rcases List.mem_cons.mp hc with rfl | hc
    · decide
    · exact isKept_lineStart c hc
  · exact h c hc

namespace WrittenDouble

variable {cs pending : List Char} {p q : Page}

theorem verbatim (hc : isVerbatim c = true) (h : WrittenDouble (c :: pending) rest p q) :
    WrittenDouble pending (c :: rest) p q := by
  obtain ⟨src, hchars, hkept, hreads, _, _⟩ := h
  have hkept' : ∀ d ∈ c :: src, isKept d = true := by
    intro d hd
    rcases List.mem_cons.mp hd with rfl | hd
    · exact (of_isVerbatim hc).1
    · exact hkept d hd
  refine ⟨c :: src, by simp [hchars], hkept', ?_, ?_, fun h _ => by simpa using h⟩
  · by_cases hblank : c = ' '
    · subst hblank
      exact hreads.blank
    · exact .of_opens (opens_verbatim hc hblank) (hreads.reads.verbatim hc hblank)
  · intro hblank
    exact opens_verbatim hc (by simpa using hblank)

theorem folded (hn : 0 < n) (hindent : p.atIndent = false) (hc : isVerbatim c = true)
    (hblank : c ≠ ' ') (h : WrittenDouble [c] rest (continued n pending.reverse p) q) :
    WrittenDouble pending (c :: rest) p q := by
  obtain ⟨src, hchars, hkept, hreads, _, _⟩ := h
  refine ⟨'\\' :: lineStart n ++ c :: src, ?_, ?_, .of_opens opens_backslash
    (.continued hn (opens_verbatim hc hblank) (hreads.reads.verbatim hc hblank)),
    fun _ => opens_backslash, fun h => absurd (by simpa using h) hblank⟩
  · rw [hchars, (chars_continued hindent n pending.reverse).1]
    simp
  · exact isKept_continued (List.forall_mem_cons.mpr ⟨(of_isVerbatim hc).1, hkept⟩)

/-- A blank on a new line stands behind a backslash of its own. -/
theorem foldedBlank (hn : 0 < n) (hindent : p.atIndent = false)
    (hfull : lineWidth < p.column + pending.length)
    (h : WrittenDouble [' '] rest ((continued n pending.reverse p).put ['\\']) q) :
    WrittenDouble pending (' ' :: rest) p q := by
  obtain ⟨src, hchars, hkept, hreads, _, _⟩ := h
  refine ⟨'\\' :: lineStart n ++ '\\' :: ' ' :: src, ?_, ?_, .of_opens opens_backslash
    (.continued hn opens_backslash (hreads.reads.letter rfl (by decide))),
    fun _ => opens_backslash, fun _ hle => absurd hfull (Nat.not_lt.mpr hle)⟩
  · rw [hchars, Page.chars_put, (chars_continued hindent n pending.reverse).1]
    simp
  · exact isKept_continued (List.forall_mem_cons.mpr ⟨by decide, List.forall_mem_cons.mpr ⟨by decide, hkept⟩⟩)

theorem of_escape (hc : isVerbatim c = false) (more : List Char)
    (hchars : q.chars = ((p.put pending.reverse).put (escapeCode (codeOf c))).chars ++ more)
    (hkept : ∀ d ∈ more, isKept d = true) (hreads : QuotedReads true more rest) :
    WrittenDouble pending (c :: rest) p q := by
  have hblank : c ≠ ' ' := by
    rintro rfl
    cases hc
  have hopens : Opens true (escapeCode (codeOf c) ++ more) := by
    obtain ⟨spelling, hspelling⟩ := List.head?_eq_some_iff.mp (head_escapeCode (codeOf c))
    rw [hspelling]
    exact opens_backslash
  refine ⟨escapeCode (codeOf c) ++ more, ?_, ?_, .of_opens hopens (hreads.escape c), fun _ => hopens,
    fun h => absurd (by simpa using h) hblank⟩
  · rw [hchars, Page.chars_put, Page.chars_put]
    simp
  · intro d hd
    exact (List.mem_append.mp hd).elim (isKept_escapeCode _ d) (hkept d)

theorem escapeFolded (hn : 0 < n) (hwidth : n < lineWidth) (hindent : p.atIndent = false)
    (hc : isVerbatim c = false)
    (h : WrittenDouble [] rest (if rest.head? == some ' ' then
        (continued n [] ((p.put pending.reverse).put (escapeCode (codeOf c)))).put ['\\']
      else continued n [] ((p.put pending.reverse).put (escapeCode (codeOf c)))) q) :
    WrittenDouble pending (c :: rest) p q := by
  obtain ⟨src, hchars, hkept, hreads, hopens, hblank⟩ := h
  obtain ⟨hline, hcolumn⟩ := @chars_continued ((p.put pending.reverse).put (escapeCode (codeOf c)))
    hindent n []
  cases hhead : rest.head? == some ' ' with
  | true =>
    have hrest : rest.head? = some ' ' := by simpa using hhead
    rw [hhead, if_pos rfl] at hchars hblank
    have hcolumn' : ((continued n [] ((p.put pending.reverse).put (escapeCode (codeOf c)))).put
        ['\\']).column = n + 1 := by
      rw [Page.put, hcolumn]
      rfl
    have hsrc := hblank hrest (hcolumn'.trans_le hwidth)
    obtain ⟨src, rfl⟩ := List.head?_eq_some_iff.mp hsrc
    obtain ⟨rest, rfl⟩ := List.head?_eq_some_iff.mp hrest
    refine of_escape hc ('\\' :: lineStart n ++ '\\' :: ' ' :: src) ?_ ?_
      (.continued hn opens_backslash (hreads.of_cons.reads.letter rfl (by decide)))
    · rw [hchars, Page.chars_put, hline]
      simp
    · exact isKept_continued (List.forall_mem_cons.mpr ⟨by decide, hkept⟩)
  | false =>
    rw [hhead, if_neg Bool.false_ne_true] at hchars
    refine of_escape hc ('\\' :: lineStart n ++ src) ?_ ?_
      (.continued hn (hopens (by simpa using hhead)) hreads.reads)
    · rw [hchars, hline]
      simp
    · exact isKept_continued hkept

end WrittenDouble

theorem double_from (hn : 0 < n) (hwidth : n < lineWidth) (split : Bool) (size : Nat) :
    ∀ (cs : List Char) (index : Nat) (pending : List Char) (p : Page), p.atIndent = false →
      WrittenDouble pending cs p (doubleFrom n split size index pending cs p)
  | [], index, pending, p, _ =>
    ⟨[], by simp [doubleFrom], by simp, .of_opens opens_nil (.nil true), fun _ => opens_nil,
      fun h => by cases h⟩
  | c :: rest, index, pending, p, hindent => by
    rw [doubleFrom_cons]
    cases hverbatim : isVerbatim c with
    | true =>
      rw [if_pos rfl]
      split
      · next hfold =>
        by_cases hblank : c = ' '
        · subst hblank
          have hfull : lineWidth < p.column + pending.length := by
            simp only [Bool.and_eq_true, decide_eq_true_eq] at hfold
            exact hfold.2
          exact .foldedBlank hn hindent hfull (double_from hn hwidth split size rest _ _ _ rfl)
        · rw [if_neg (by simpa using hblank)]
          exact .folded hn hindent hverbatim hblank (double_from hn hwidth split size rest _ _ _ rfl)
      · exact .verbatim hverbatim (double_from hn hwidth split size rest _ _ _ hindent)
    | false =>
      rw [if_neg Bool.false_ne_true]
      split
      · exact .escapeFolded hn hwidth hindent hverbatim
          (double_from hn hwidth split size rest _ _ _ (by split <;> rfl))
      · obtain ⟨src, hchars, hkept, hreads, _, _⟩ := double_from hn hwidth split size rest (index + 1) []
          ((p.put pending.reverse).put (escapeCode (codeOf c))) hindent
        exact .of_escape hverbatim src hchars hkept hreads.reads

/-- Any text is written in double quotes so that it is read back. -/
theorem writeDouble_reads (hn : 0 < n) (hwidth : n < lineWidth) (split : Bool) (cs : List Char)
    (p : Page) : ∃ src, (writeDouble n split cs p).chars =
        p.chars ++ (p.gap ++ quoteOf true :: (src ++ [quoteOf true])) ∧
      (∀ c ∈ src, isKept c = true) ∧ QuotedReads true src cs ∧
      (writeDouble n split cs p).atIndent = false := by
  obtain ⟨src, hchars, hkept, hreads, _⟩ := double_from hn hwidth split cs.length cs 0 []
    (p.indicator ['"'] true false false) (by simp)
  refine ⟨src, ?_, hkept, hreads.reads, by simp [writeDouble]⟩
  rw [writeDouble, Page.chars_indicator_close, hchars, Page.chars_indicator]
  simp [quoteOf]

end JudgedLint.Yaml
