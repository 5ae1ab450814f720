import JudgedLint.Yaml.Scalar
import JudgedLint.Proofs.Yaml.Analysis
import JudgedLint.Proofs.Yaml.Page

/-! Plain scalars: what is written without quotes, perhaps on several lines, is read back up to the
line end behind it. A text goes word by word; between two words stand blanks, or a line end with the
indentation of the next line where there was one blank. -/
namespace JudgedLint.Yaml

open Scalar

/-- Whatever is read of a plain scalar in blocks that go on at column `n`: the given text, up to the
next line, if this line belongs to no deeper block. -/
def PlainReads (n : Nat) (src out : List Char) : Prop :=
  ∀ (indent : Int) (column : Nat) (more : List Char), indent ≤ n → column < indent → Calm more →
    ∀ (fuel : Nat) (gap : List Char) (broken : Bool) (i k at_ : Nat),
      (src ++ (lineStart column ++ more)).length < fuel → indent ≤ at_ →
        ∃ j m, k < m ∧ plainPieces false indent fuel gap broken
          ⟨src ++ (lineStart column ++ more), i, k, at_⟩ = (gap ++ out, true, ⟨more, j, m, column⟩)

variable {indent : Int} {column n i k at_ : Nat} {more word src out rest tail : List Char}
  {previous : Option Char}

theorem plainLength_word (hword : ∀ c ∈ word, isGap c = false)
    (hclean : anyBetween isBlockSyntax previous (word ++ rest) = false)
    (hrest : ∀ c, rest.head? = some c → isGap c = true) (htail : isGap (tail.headD endChar) = true) :
    plainLength false (word ++ tail) = word.length := by
  induction word generalizing previous with
  | nil =>
    cases tail with
    | nil => rfl
    | cons c tail =>
      have hgap : isGap c = true := htail
      simp [plainLength, plainStops, hgap]
  | cons c word ih =>
    obtain ⟨hblock, hmore⟩ := anyBetween_cons.mp hclean
    have hcolon : c = ':' → isGap ((word ++ tail).headD endChar) = false := by
      rintro rfl
      have hafter : ((word ++ rest).head?.map isGap).getD true = false := by
        cases previous <;> simpa [isBlockSyntax, isIndicator] using hblock
      cases word with
      | nil =>
        cases rest with
        | nil => cases hafter
        | cons d rest =>
          exact absurd ((hrest d rfl).symm.trans hafter) (by decide)
      | cons d word => exact hword d (by simp)
    have hstops : plainStops false c ((word ++ tail).headD endChar) = false := by
      by_cases hc : c = ':'
      · simp only [plainStops, hword c List.mem_cons_self, hcolon hc]
        simp
      · simp [plainStops, hword c List.mem_cons_self, hc]
    rw [List.cons_append, plainLength, hstops]
    simp [ih (fun d hd => hword d (List.mem_cons_of_mem _ hd)) hmore]

theorem plainBreaks_blanks (h : Calm more) : ∀ {fuel n i at_ : Nat}, n < fuel →
    plainBreaks fuel ⟨List.replicate n ' ' ++ more, i, k, at_⟩ =
      (some [], ⟨more, i + n, k, at_ + n⟩) := by
  obtain ⟨hblank, _, hbreak, _⟩ := h.head
  intro fuel
  induction fuel with
  | zero => intro n _ _ hn; omega
  | succ fuel ih =>
    intro n i at_ hn
    cases n with
    | zero =>
      rw [plainBreaks, List.replicate_zero, List.nil_append, Cursor.peek_mk,
        if_neg (by simpa using hblank), if_neg (by simpa using hbreak)]
      rfl
    | succ n =>
      have hnext : (Cursor.mk (List.replicate (n + 1) ' ' ++ more) i k at_).next =
          ⟨List.replicate n ' ' ++ more, i + 1, k, at_ + 1⟩ := Cursor.next_inert (by decide)
      rw [plainBreaks, Cursor.peek_mk, List.replicate_succ, if_pos (by rfl), ← List.replicate_succ,
        hnext, ih (by omega)]
      simp only [Nat.add_assoc, Nat.add_comm 1]

theorem plainGap_blanks (h : Calm rest) :
    plainGap ⟨List.replicate n ' ' ++ rest, i, k, at_⟩ =
      (List.replicate n ' ', false, ⟨rest, i + n, k, at_ + n⟩) := by
  obtain ⟨hblank, _, hbreak, _⟩ := h.head
  rw [plainGap, Cursor.spanBlanks (by rfl) (by simpa using hblank)]
  simp only [Cursor.peek_mk, hbreak, Bool.false_eq_true, if_false]

/-- A line end with its indentation stands for one blank, unless a line follows that separates
documents. -/
theorem plainGap_line (h : Calm rest) (n i k at_ : Nat) :
    ∃ gap j, plainGap ⟨lineStart n ++ rest, i, k, at_⟩ = (gap, true, ⟨rest, j, k + 1, n⟩) ∧
      (0 < n → gap = [' ']) := by
  have hspan : (Cursor.mk (lineStart n ++ rest) i k at_).spanWhile (· == ' ') =
      ([], ⟨lineStart n ++ rest, i, k, at_⟩) :=
    Cursor.spanNothing (by rfl) _ _ _
  have hbreak : (Cursor.mk (lineStart n ++ rest) i k at_).lineBreak =
      (['\n'], ⟨List.replicate n ' ' ++ rest, i + 1, k + 1, 0⟩) := rfl
  unfold plainGap
  rw [hspan]
  dsimp only
  rw [if_pos (by rfl), hbreak]
  dsimp only
  rw [plainBreaks_blanks h (by rw [List.length_append, List.length_replicate]; omega)]
  split
  · next hseparator =>
    cases n with
    | zero => exact ⟨[], i + 1, rfl, fun h => absurd h (by decide)⟩
    | succ n => simp [Cursor.atSeparator, List.replicate_succ] at hseparator
  · exact ⟨[' '], i + 1 + n, by simp, fun _ => rfl⟩

/-- A word between the gaps of a text. -/
structure IsPlainWord (word : List Char) : Prop where
  nonempty : word ≠ []
  start : word.headD endChar ≠ '#'
  inert : ∀ c ∈ word, isInert c = true
  length : ∀ tail : List Char, isGap (tail.headD endChar) = true →
    plainLength false (word ++ tail) = word.length

theorem plainPieces_word (hword : IsPlainWord word) (htail : isGap (tail.headD endChar) = true)
    (fuel : Nat) (gap : List Char) (broken : Bool) :
    plainPieces false indent (fuel + 1) gap broken ⟨word ++ tail, i, k, at_⟩ =
      let (next, broken, c) := plainGap ⟨tail, i + word.length, k, at_ + word.length⟩
      if next.isEmpty || c.peek == '#' || (c.column : Int) < indent then
        (gap ++ word, broken, c)
      else
        let (rest, broken, c) := plainPieces false indent fuel next broken c
        (gap ++ word ++ rest, broken, c) := by
  have hpeek : (word ++ tail).headD endChar ≠ '#' := by
    obtain ⟨c, word', rfl⟩ := List.exists_cons_of_ne_nil hword.nonempty
    exact hword.start
  have hlength : word.length ≠ 0 := mt List.length_eq_zero_iff.mp hword.nonempty
  rw [plainPieces]
  simp only [Cursor.peek_mk, beq_iff_eq, hpeek, if_false, hword.length tail htail, hlength,
    Cursor.forward_inert hword.inert, List.take_left, Bool.not_false, Bool.true_and]

theorem PlainReads.last (hword : IsPlainWord word) : PlainReads n word word := by
  intro indent column more _ hcolumn hmore fuel gap broken i k at_ hfuel _
  obtain ⟨fuel, rfl⟩ : ∃ left, fuel = left + 1 := ⟨fuel - 1, by omega⟩
  obtain ⟨next, j, hgap, _⟩ := plainGap_line hmore column (i + word.length) k (at_ + word.length)
  refine ⟨j, k + 1, Nat.lt_succ_self k, ?_⟩
  rw [plainPieces_word hword (by rfl), hgap]
  simp [hcolumn]

theorem PlainReads.blanks {c : Char} {count : Nat} (hcount : 0 < count) (hword : IsPlainWord word)
    (hc : isCalm c = true) (h : PlainReads n (c :: src) out) :
    PlainReads n (word ++ (List.replicate count ' ' ++ c :: src))
      (word ++ (List.replicate count ' ' ++ out)) := by
  intro indent column more hindent hcolumn hmore fuel gap broken i k at_ hfuel hat
  obtain ⟨fuel, rfl⟩ : ∃ left, fuel = left + 1 := ⟨fuel - 1, by omega⟩
  have hsrc : Calm (c :: src ++ (lineStart column ++ more)) := hc
  obtain ⟨j, m, hline, hrest⟩ := h indent column more hindent hcolumn hmore fuel
    (List.replicate count ' ') false (i + word.length + count) k (at_ + word.length + count)
    (by simp at hfuel ⊢; omega) (by omega)
  refine ⟨j, m, hline, ?_⟩
  obtain ⟨count, rfl⟩ : ∃ left, count = left + 1 := ⟨count - 1, by omega⟩
  have hnear : ¬((at_ + word.length + (count + 1) : Nat) : Int) < indent := by omega
  rw [List.append_assoc, List.append_assoc, plainPieces_word hword (by rfl), plainGap_blanks hsrc]
  simp only [List.replicate_succ, List.isEmpty_cons, Cursor.peek_mk,
    beq_eq_false_iff_ne.mpr hsrc.head.2.1, hnear, decide_false, Bool.or_false, Bool.false_eq_true,
    if_false]
  rw [← List.replicate_succ, hrest]
  simp only [List.append_assoc]

theorem PlainReads.fold {c : Char} (hn : 0 < n) (hword : IsPlainWord word) (hc : isCalm c = true)
    (h : PlainReads n (c :: src) out) :
    PlainReads n (word ++ (lineStart n ++ c :: src)) (word ++ (' ' :: out)) := by
  intro indent column more hindent hcolumn hmore fuel gap broken i k at_ hfuel hat
  obtain ⟨fuel, rfl⟩ : ∃ left, fuel = left + 1 := ⟨fuel - 1, by omega⟩
  have hsrc : Calm (c :: src ++ (lineStart column ++ more)) := hc
  obtain ⟨next, j, hgap, hnext⟩ := plainGap_line hsrc n (i + word.length) k (at_ + word.length)
  obtain rfl := hnext hn
  obtain ⟨j', m', hline, hrest⟩ := h indent column more hindent hcolumn hmore fuel [' '] true j (k + 1)
    n (by simp [lineStart] at hfuel ⊢; omega) (by omega)
  refine ⟨j', m', by omega, ?_⟩
  have hnear : ¬(n : Int) < indent := by omega
  rw [List.append_assoc, List.append_assoc, plainPieces_word hword (by rfl), hgap]
  simp only [List.isEmpty_cons, Cursor.peek_mk, beq_eq_false_iff_ne.mpr hsrc.head.2.1, hnear, hrest,
    decide_false, Bool.or_false, Bool.false_eq_true, if_false]
  simp only [List.append_assoc, List.cons_append, List.nil_append]

/-! Writing goes by runs, one for each word and one for the blanks between two of them. -/

def blankKind (c : Char) : Nat := if c == ' ' then 1 else 0

/-- A run of a text without quotes: one blank may become a line end. -/
def plainStep (indent : Nat) (split : Bool) (p : Page) (run : List Char) : Page :=
  if run == [' '] && lineWidth < p.column && split then
    { p.indentTo indent with afterGap := false, atIndent := false }
  else p.put run

theorem writePlain_eq {cs : List Char} (hne : cs ≠ []) (indent : Nat) (split : Bool) (p : Page) :
    writePlain indent split cs p = (runs blankKind cs).foldl (plainStep indent split)
      { (if p.afterGap then p else p.put [' ']) with afterGap := false, atIndent := false } := by
  rw [writePlain, if_neg (by simpa using hne)]
  rfl

/-- What is left of a text from one of its words on. -/
structure PlainRest (previous : Option Char) (cs : List Char) : Prop where
  ordinary : ∀ c ∈ cs, isOrdinary c = true ∧ isTextBreak c = false
  start : ∃ c rest, cs = c :: rest ∧ c ≠ ' ' ∧ c ≠ '#'
  last : cs.getLast? ≠ some ' '
  clean : anyBetween isBlockSyntax previous cs = false

theorem PlainRest.isPlainWord {previous : Option Char} {c : Char} {run : List Char}
    (rest : List Char) (h : PlainRest previous (c :: run ++ rest))
    (hrun : ∀ d ∈ run, blankKind d = blankKind c)
    (hrest : ∀ d, rest.head? = some d → d = ' ') : IsPlainWord (c :: run) := by
  obtain ⟨c', rest', heq, hblank, hcomment⟩ := h.start
  cases heq
  have hword : ∀ d ∈ c :: run, d ≠ ' ' := by
    rintro d hd rfl
    cases hd with
    | head => exact hblank rfl
    | tail _ hd =>
      have := hrun _ hd
      simp [blankKind, hblank] at this
  have hordinary : ∀ d ∈ c :: run, isOrdinary d = true ∧ isTextBreak d = false :=
    fun d hd => h.ordinary d (List.mem_append_left _ hd)
  have hgapless : ∀ d ∈ c :: run, isGap d = false := fun d hd => by
    rw [isGap_of_isOrdinary (hordinary d hd).1 (hordinary d hd).2]
    exact beq_eq_false_iff_ne.mpr (hword d hd)
  refine
    { nonempty := List.cons_ne_nil c run
      start := hcomment
      inert := fun d hd => isInert_of_isOrdinary (hordinary d hd).1 (hordinary d hd).2
      length := fun tail htail => plainLength_word hgapless h.clean ?_ htail }
  intro d hd
  rw [hrest d hd]
  decide

/-- What is written starts with the first word of the text. -/
def SameWord (src cs : List Char) : Prop :=
  ∃ word tail rest, word ≠ [] ∧ src = word ++ tail ∧ cs = word ++ rest ∧
    ∀ c, rest.head? = some c → c = ' '

theorem SameWord.head {src cs : List Char} (h : SameWord src cs) : src.head? = cs.head? := by
  obtain ⟨word, tail, rest, hne, rfl, rfl, _⟩ := h
  obtain ⟨c, word, rfl⟩ := List.exists_cons_of_ne_nil hne
  rfl

/-- A text that starts at a word and has been written, with what is read of it. -/
structure WrittenPlain (n : Nat) (p q : Page) (cs : List Char) : Prop where
  text : ∃ src, q.chars = p.chars ++ src ∧ SameWord src cs ∧ (∀ c ∈ src, isKept c = true) ∧
    PlainReads n src cs
  afterGap : q.afterGap = false
  atIndent : q.atIndent = false

theorem isCalm_of_isOrdinary {c : Char} (h : isOrdinary c = true ∧ isTextBreak c = false)
    (hblank : c ≠ ' ') (hcomment : c ≠ '#') : isCalm c = true := by
  simp [isCalm, hblank, hcomment, isInert_of_isOrdinary h.1 h.2]

theorem plainStep_word {c : Char} (hc : c ≠ ' ') (run : List Char) (indent : Nat) (split : Bool)
    (p : Page) : plainStep indent split p (c :: run) = p.put (c :: run) := by
  have hne : (c :: run == [' ']) = false := by simp [hc]
  rw [plainStep, hne]
  rfl

theorem PlainRest.behind {previous : Option Char} {c d : Char} {run blanks : List Char}
    {groups : List (List Char)} (h : PlainRest previous (c :: run ++ (d :: blanks ++ groups.flatten)))
    (hruns : Runs blankKind ((c :: run) :: (d :: blanks) :: groups)) :
    d :: blanks = List.replicate (blanks.length + 1) ' ' ∧ PlainRest (some ' ') groups.flatten := by
  obtain ⟨_, _, heq, hblank, _⟩ := h.start
  cases heq
  cases hruns with
  | cons hsame hother hmore =>
  cases hmore with
  | cons hsame' hother' hmore' =>
  obtain rfl : d = ' ' := Decidable.byContradiction fun hd =>
    hother d rfl (by simp [blankKind, hblank, hd])
  have hblanks : ' ' :: blanks = List.replicate (blanks.length + 1) ' ' := by
    rw [List.eq_replicate_iff]
    refine ⟨rfl, fun e he => ?_⟩
    cases he with
    | head => rfl
    | tail _ he =>
      have hkind := hsame' e he
      exact Decidable.byContradiction fun hne => by simp [blankKind, hne] at hkind
  have hclean := anyBetween_append (anyBetween_append h.clean)
  have hlast : (' ' :: blanks).getLast? = some ' ' := by
    rw [hblanks, List.getLast?_replicate]
    rfl
  rw [hlast] at hclean
  refine ⟨hblanks, ?_⟩
  have hends := h.last
  -- The text does not end in a blank, so a word follows the gap.
  cases hflatten : groups.flatten with
  | nil =>
    rw [hflatten, List.append_nil, List.getLast?_append, hlast] at hends
    exact absurd rfl hends
  | cons e rest =>
    rw [hflatten] at hclean hother' hends
    have he : e ≠ ' ' := by
      rintro rfl
      exact hother' ' ' rfl rfl
    refine
      { ordinary := fun x hx => h.ordinary x (by rw [hflatten]; simp [hx])
        start := ⟨e, rest, rfl, he, ?_⟩
        last := ?_
        clean := hclean }
    · rintro rfl
      cases (anyBetween_cons.mp hclean).1
    · rw [List.getLast?_append, List.getLast?_append] at hends
      simpa using hends

/-- A word and the gap behind it are written in front of what is read, which stays read. -/
theorem WrittenPlain.of_gap {p q q' : Page} {word gap cs text : List Char} {e : Char}
    (hstart : cs.head? = some e) (hq : q.chars = p.chars ++ (word ++ gap))
    (hword : ∀ x ∈ word, isKept x = true) (hgap : ∀ x ∈ gap, isKept x = true)
    (hsame : ∀ tail, SameWord (word ++ tail) text)
    (hreads : ∀ src, PlainReads n (e :: src) cs → PlainReads n (word ++ (gap ++ e :: src)) text)
    (h : WrittenPlain n q q' cs) : WrittenPlain n p q' text := by
  obtain ⟨⟨src, hsrc, hhead, hkept, hread⟩, hafterGap, hatIndent⟩ := h
  obtain ⟨src, rfl⟩ : ∃ more, src = e :: more :=
    List.head?_eq_some_iff.mp (hhead.head.trans hstart)
  refine ⟨⟨word ++ (gap ++ e :: src), ?_, hsame _, ?_, hreads src hread⟩, hafterGap, hatIndent⟩
  · rw [hsrc, hq]
    simp only [List.append_assoc]
  · intro x hx
    rcases List.mem_append.mp hx with hx | hx
    · exact hword x hx
    · exact (List.mem_append.mp hx).elim (hgap x) (hkept x)

theorem plain_runs (hn : 0 < n) (split : Bool) : ∀ (groups : List (List Char)) (previous : Option Char)
    (p : Page), Runs blankKind groups → PlainRest previous groups.flatten → p.afterGap = false →
      p.atIndent = false → WrittenPlain n p (groups.foldl (plainStep n split) p) groups.flatten
  | [], _, _, _, hrest, _, _ => by
    obtain ⟨_, _, heq, _⟩ := hrest.start
    cases heq
  | [word], previous, p, hruns, hrest, hgap, hindent => by
    cases hruns with
    | @cons c run _ hsame hother hmore =>
    obtain ⟨_, _, heq, hblank, _⟩ := hrest.start
    cases heq
    have hword := PlainRest.isPlainWord [] hrest hsame (by simp)
    simp only [List.foldl_cons, List.foldl_nil, plainStep_word hblank]
    have hsame : SameWord (c :: run) [c :: run].flatten :=
      ⟨c :: run, [], [], List.cons_ne_nil c run, by simp, by simp, by simp⟩
    refine ⟨⟨c :: run, by simp, hsame, ?_, ?_⟩, hgap, hindent⟩
    · exact fun d hd => isKept_of_isOrdinary (hrest.ordinary d (by simpa using hd)).1
    · simpa using PlainReads.last hword
  -- A word and the gap behind it are taken together: whether the gap is a line end or blanks, the next
  -- word decides how it is read.
  | word :: gap :: groups, previous, p, hruns, hrest, hgap, hindent => by
    obtain ⟨c, run, rfl⟩ : ∃ c run, word = c :: run := by
      cases hruns
      exact ⟨_, _, rfl⟩
    obtain ⟨d, blanks, rfl⟩ : ∃ d blanks, gap = d :: blanks := by
      cases hruns with
      | cons _ _ hmore =>
      cases hmore
      exact ⟨_, _, rfl⟩
    obtain ⟨hblanks, hrest'⟩ := PlainRest.behind hrest hruns
    obtain ⟨_, _, heq, hblank, _⟩ := hrest.start
    cases heq
    obtain ⟨e, tail, hflatten, he, hcomment⟩ := hrest'.start
    have hstart : groups.flatten.head? = some e := by rw [hflatten]; rfl
    have hcalm : isCalm e = true :=
      isCalm_of_isOrdinary (hrest'.ordinary e (by simp [hflatten])) he hcomment
    cases hruns with
    | cons hsame hother hmore =>
    cases hmore with
    | cons hsame' hother' hmore' =>
    have hd : ∀ x, (d :: blanks ++ groups.flatten).head? = some x → x = ' ' := by
      intro x hx
      cases hx
      exact (List.eq_replicate_iff.mp hblanks).2 d List.mem_cons_self
    have hword := PlainRest.isPlainWord (d :: blanks ++ groups.flatten) hrest hsame hd
    have hkept : ∀ x ∈ c :: run, isKept x = true := fun x hx =>
      isKept_of_isOrdinary (hrest.ordinary x (by
        rw [List.flatten_cons]
        exact List.mem_append_left _ hx)).1
    have hsame (tail : List Char) : SameWord (c :: run ++ tail)
        ((c :: run) :: (d :: blanks) :: groups).flatten :=
      ⟨c :: run, tail, d :: blanks ++ groups.flatten, List.cons_ne_nil c run, rfl, rfl, hd⟩
    simp only [List.foldl_cons, plainStep_word hblank]
    rw [plainStep]
    split
    · next hfold =>
      have hblank : d :: blanks = [' '] := by
        simp only [Bool.and_eq_true, beq_iff_eq] at hfold
        exact hfold.1.1
      have hline := Page.indentTo_newLine (p := p.put (c :: run)) (n := n) (.inl hindent)
      have hq : { (p.put (c :: run)).indentTo n with afterGap := false, atIndent := false }.chars =
          p.chars ++ (c :: run ++ lineStart n) := by
        rw [Page.chars_flags, hline.chars, Page.chars_put, List.append_assoc]
      refine (plain_runs hn split groups (some ' ') _ hmore' hrest' rfl rfl).of_gap hstart hq hkept
        isKept_lineStart hsame fun src hreads => ?_
      rw [List.flatten_cons, List.flatten_cons, hblank]
      exact hreads.fold hn hword hcalm
    · have hq : ((p.put (c :: run)).put (d :: blanks)).chars = p.chars ++ (c :: run ++ d :: blanks) := by
        rw [Page.chars_put, Page.chars_put, List.append_assoc]
      refine (plain_runs hn split groups (some ' ') ((p.put (c :: run)).put (d :: blanks)) hmore' hrest'
        hgap hindent).of_gap hstart hq hkept (fun x hx => ?_) hsame fun src hreads => ?_
      · rw [hblanks] at hx
        rw [List.eq_of_mem_replicate hx]
        decide
      · rw [List.flatten_cons, List.flatten_cons, hblanks]
        exact hreads.blanks (Nat.succ_pos _) hword hcalm

/-- A text without quotes is written so that it is read back. -/
theorem writePlain_reads {cs : List Char} (hn : 0 < n) (hne : cs ≠ []) (h : PlainText cs) (split : Bool)
    (p : Page) : ∃ src, (writePlain n split cs p).chars = p.chars ++ (p.gap ++ src) ∧
      SameWord src cs ∧ (∀ c ∈ src, isKept c = true) ∧ PlainReads n src cs ∧
      (writePlain n split cs p).atIndent = false := by
  obtain ⟨hruns, hflatten⟩ := runs_spec blankKind cs
  obtain ⟨c, rest, rfl⟩ := List.exists_cons_of_ne_nil hne
  have hrest : PlainRest none (runs blankKind (c :: rest)).flatten := by
    rw [hflatten]
    refine
      { ordinary := h.ordinary
        start := ⟨c, rest, rfl, fun hc => h.first (congrArg some hc), ?_⟩
        last := h.last
        clean := h.clean }
    rintro rfl
    cases (anyBetween_cons.mp h.clean).1
  rw [writePlain_eq hne]
  obtain ⟨⟨src, hsrc, hhead, hkept, hreads⟩, _, hindent⟩ := plain_runs hn split _ none
    { (if p.afterGap then p else p.put [' ']) with afterGap := false, atIndent := false } hruns hrest rfl rfl
  rw [hflatten] at hhead hreads
  refine ⟨src, ?_, hhead, hkept, hreads, hindent⟩
  rw [hsrc, Page.chars_flags, Page.gap]
  cases p.afterGap <;> simp

end JudgedLint.Yaml
