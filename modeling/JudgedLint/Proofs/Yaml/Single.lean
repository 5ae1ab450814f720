import JudgedLint.Proofs.Yaml.Page
import JudgedLint.Proofs.Yaml.Quoted

/-! Text in single quotes. It is cut into runs of blanks, of breaks and of other characters; since no
blank stands beside a break, other characters follow each gap, and the gap keeps its meaning. The next
line character is the exception: it is written as it is and read as a line end. -/
namespace JudgedLint.Yaml

open Scalar

/-- The runs of a text in single quotes. -/
def gapKind (c : Char) : Nat := if c == ' ' then 1 else if isTextBreak c then 2 else 0

structure SingleRest (previous : Option Char) (cs : List Char) : Prop where
  ordinary : ∀ c ∈ cs, isOrdinary c = true
  faithful : ∀ c ∈ cs, c.toNat ≠ 0x85
  breakSpace : anyBetween (fun b c _ => c == ' ' && (b.map isTextBreak).getD false) previous cs = false
  spaceBreak : anyBetween (fun b c _ => isTextBreak c && b == some ' ') previous cs = false

theorem singleRest_of_analyze {cs : List Char} (h : (analyze cs).single = true)
    (hfaithful : ∀ c ∈ cs, c.toNat ≠ 0x85) : SingleRest none cs := by
  cases cs with
  | nil => exact ⟨by simp, by simp, rfl, rfl⟩
  | cons first rest =>
    simp only [analyze, Bool.not_eq_true', Bool.or_eq_false_iff, List.any_eq_false,
      Bool.not_eq_false] at h
    exact ⟨fun c hc => by simpa using h.2 c hc, hfaithful, h.1.1, h.1.2⟩

variable {n count : Nat} {c : Char} {run src out : List Char} {previous : Option Char}
  {groups : List (List Char)}

theorem isQuotedPlain_of_ordinary (hkind : gapKind c = 0) (hordinary : isOrdinary c = true)
    (hquote : c ≠ Char.ofNat 39) (hmark : ¬(c = '"' ∨ c = '\\')) :
    isQuotedPlain c = true ∧ isInert c = true := by
  have hblank : c ≠ ' ' := by
    rintro rfl
    cases hkind
  have hbreak : isTextBreak c = false := by
    cases h : isTextBreak c with
    | false => rfl
    | true => simp [gapKind, hblank, h] at hkind
  rw [not_or] at hmark
  refine ⟨?_, isInert_of_isOrdinary hordinary hbreak⟩
  simp [isQuotedPlain, isGap_of_isOrdinary hordinary hbreak, hblank, toNat_beq_39 hquote, hmark]

theorem quoted_run (hkind : ∀ c ∈ run, gapKind c = 0) (hordinary : ∀ c ∈ run, isOrdinary c = true)
    (h : QuotedReads false src out) :
    QuotedReads false ((run.flatMap fun c => if c.toNat == 39 then [c, c] else [c]) ++ src)
      (run ++ out) := by
  induction run with
  | nil => exact h
  | cons c run ih =>
    have hmore := ih (fun d hd => hkind d (List.mem_cons_of_mem _ hd))
      fun d hd => hordinary d (List.mem_cons_of_mem _ hd)
    rw [List.flatMap_cons]
    by_cases hquote : c = Char.ofNat 39
    · subst hquote
      exact hmore.doubled
    · have hcode : (c.toNat == 39) = false := toNat_beq_39 hquote
      rw [hcode]
      by_cases hmark : c = '"' ∨ c = '\\'
      · exact hmore.mark hmark
      · obtain ⟨hplain, hinert⟩ := isQuotedPlain_of_ordinary (hkind c List.mem_cons_self)
          (hordinary c List.mem_cons_self) hquote hmark
        exact hmore.plain hplain hinert

theorem gapKind_eq_one : gapKind c = 1 ↔ c = ' ' := by
  unfold gapKind
  split
  · next h => simpa using h
  · next h =>
    have hne : c ≠ ' ' := by simpa using h
    split <;> simp [hne]

theorem gapKind_eq_two : gapKind c = 2 ↔ isTextBreak c = true := by
  unfold gapKind
  split
  · next h =>
    obtain rfl : c = ' ' := by simpa using h
    decide
  · split <;> simp_all

theorem gapKind_eq_zero : gapKind c = 0 ↔ c ≠ ' ' ∧ isTextBreak c = false := by
  unfold gapKind
  split
  · next h =>
    obtain rfl : c = ' ' := by simpa using h
    decide
  · split <;> simp_all

theorem SingleRest.behind (h : SingleRest previous (c :: run ++ rest)) :
    SingleRest ((c :: run).getLast?) rest where
  ordinary d hd := h.ordinary d (List.mem_append_right _ hd)
  faithful d hd := h.faithful d (List.mem_append_right _ hd)
  breakSpace := anyBetween_append h.breakSpace
  spaceBreak := anyBetween_append h.spaceBreak

/-- Behind a run of blanks or of breaks stands no gap. -/
theorem SingleRest.behind_gap (h : SingleRest previous (c :: run ++ rest)) (hc : gapKind c ≠ 0)
    (hsame : ∀ d ∈ run, gapKind d = gapKind c)
    (hother : ∀ d, rest.head? = some d → gapKind d ≠ gapKind c) :
    ∀ d, rest.head? = some d → gapKind d = 0 := by
  intro d hd
  obtain ⟨rest, rfl⟩ := List.head?_eq_some_iff.mp hd
  obtain ⟨last, hlast⟩ : ∃ last, (c :: run).getLast? = some last :=
    ⟨_, List.getLast?_eq_some_getLast (List.cons_ne_nil c run)⟩
  have hkind : gapKind last = gapKind c := by
    cases List.mem_of_getLast? hlast with
    | head => rfl
    | tail _ hmem => exact hsame last hmem
  have hbehind := h.behind
  rw [hlast] at hbehind
  have hbreakSpace := (anyBetween_cons.mp hbehind.breakSpace).1
  have hspaceBreak := (anyBetween_cons.mp hbehind.spaceBreak).1
  have hdiffers := hother d rfl
  rw [← hkind] at hc hdiffers
  rw [gapKind_eq_zero]
  by_cases hblank : last = ' '
  · subst hblank
    exact ⟨fun heq => hdiffers (heq ▸ rfl), by simpa using hspaceBreak⟩
  · have hbreak : isTextBreak last = true := by
      rw [ne_eq, gapKind_eq_zero, not_and] at hc
      simpa using hc hblank
    refine ⟨by simpa [hbreak] using hbreakSpace, ?_⟩
    rw [gapKind_eq_two.mpr hbreak, ne_eq, gapKind_eq_two] at hdiffers
    simpa using hdiffers

/-- A text in single quotes that has been written up to the closing one, with what is read of it. -/
def WrittenSingle (p q : Page) (cs : List Char) : Prop :=
  ∃ src, q.chars = p.chars ++ src ∧ (∀ c ∈ src, isKept c = true) ∧ QuotedReads false src cs ∧
    ((∀ c, cs.head? = some c → gapKind c = 0) → Opens false src)

/-- The pen stands where a run can be written: a blank that may become a line end never stands in the
indentation of a line. -/
def PenFor (n : Nat) (p : Page) (cs : List Char) : Prop :=
  p.atIndent = false ∨ n < p.column ∨ (n = p.column ∧ cs.head? ≠ some ' ')

variable {p : Page}

theorem opens_run (hc : gapKind c = 0) (hordinary : isOrdinary c = true) (run src : List Char) :
    Opens false (((c :: run).flatMap fun c => if c.toNat == 39 then [c, c] else [c]) ++ src) := by
  rw [gapKind_eq_zero] at hc
  have hgap : isGap c = false := by
    rw [isGap_of_isOrdinary hordinary hc.2]
    exact beq_eq_false_iff_ne.mpr hc.1
  rw [List.flatMap_cons]
  split <;> exact hgap

theorem singleRuns_text (hc : gapKind c = 0) (n : Nat) (split first : Bool) (p : Page) :
    singleRuns n split first ((c :: run) :: groups) p = singleRuns n split false groups
      (p.put ((c :: run).flatMap fun c => if c.toNat == 39 then [c, c] else [c])) := by
  rw [gapKind_eq_zero] at hc
  rw [singleRuns]
  simp [hc]

theorem singleRuns_breaks (hc : gapKind c = 2) (n : Nat) (split first : Bool) (p : Page) :
    singleRuns n split first ((c :: run) :: groups) p = singleRuns n split false groups
      (((c :: run).foldl (fun p b => p.lineBreak b) (if c == '\n' then p.lineBreak '\n' else p)).indentTo
        n) := by
  have hbreak := gapKind_eq_two.mp hc
  have hblank : c ≠ ' ' := by
    rintro rfl
    cases hc
  rw [singleRuns]
  simp [hbreak, hblank]

/-- A gap that is written in front of what is read keeps it read, where no further gap follows. -/
theorem WrittenSingle.of_gap {q q' : Page} {gap text cs : List Char} (hq : q.chars = p.chars ++ gap)
    (hkept : ∀ c ∈ gap, isKept c = true) (hnot : ∃ c, text.head? = some c ∧ gapKind c ≠ 0)
    (hreads : ∀ src, Opens false src → QuotedReads false src cs →
      QuotedReads false (gap ++ src) (text ++ cs))
    (hnext : ∀ c, cs.head? = some c → gapKind c = 0) (h : WrittenSingle q q' cs) :
    WrittenSingle p q' (text ++ cs) := by
  obtain ⟨src, hsrc, hkept', hread, hopens⟩ := h
  refine ⟨gap ++ src, by rw [hsrc, hq, List.append_assoc], ?_, hreads src (hopens hnext) hread, ?_⟩
  · intro c hc
    exact (List.mem_append.mp hc).elim (hkept c) (hkept' c)
  · obtain ⟨c, hhead, hc⟩ := hnot
    intro hall
    refine absurd (hall c ?_) hc
    obtain ⟨rest, rfl⟩ := List.head?_eq_some_iff.mp hhead
    rfl

theorem PenFor.put {cs : List Char} (h : PenFor n p cs) (hrun : run ≠ []) :
    PenFor n (p.put run) rest := by
  have hpos : 0 < run.length := List.length_pos_iff.mpr hrun
  rcases h with h | h | ⟨h, _⟩
  · exact .inl h
  · exact .inr (.inl (by rw [Page.put]; dsimp only; omega))
  · exact .inr (.inl (by rw [Page.put]; dsimp only; omega))

theorem single_text (hsame : ∀ d ∈ c :: run, gapKind d = 0)
    (hordinary : ∀ d ∈ c :: run, isOrdinary d = true) {q : Page} {cs : List Char}
    (h : WrittenSingle
      (p.put ((c :: run).flatMap fun c => if c.toNat == 39 then [c, c] else [c])) q cs) :
    WrittenSingle p q (c :: run ++ cs) := by
  obtain ⟨src, hsrc, hkept, hreads, _⟩ := h
  refine ⟨_, by rw [hsrc, Page.chars_put, List.append_assoc], ?_, quoted_run hsame hordinary hreads,
    fun _ => opens_run (hsame c List.mem_cons_self) (hordinary c List.mem_cons_self) run src⟩
  intro d hd
  rcases List.mem_append.mp hd with hd | hd
  · obtain ⟨e, he, hd⟩ := List.mem_flatMap.mp hd
    obtain rfl : d = e := by
      split at hd <;> simpa using hd
    exact isKept_of_isOrdinary (hordinary d he)
  · exact hkept d hd

theorem singleRuns_blanks (n : Nat) (split first : Bool) (p : Page) :
    singleRuns n split first ((' ' :: run) :: groups) p = singleRuns n split false groups
      (if ' ' :: run == [' '] && lineWidth < p.column && split && !first && !groups.isEmpty then
        p.indentTo n else p.put (' ' :: run)) := rfl

theorem chars_lineBreaks (p : Page) (c : Char) (run : List Char) :
    ((c :: run).foldl (fun p b => p.lineBreak b) p).chars = p.chars ++ c :: run ∧
    ((c :: run).foldl (fun p b => p.lineBreak b) p).column = 0 ∧
    ((c :: run).foldl (fun p b => p.lineBreak b) p).atIndent = true := by
  induction run generalizing p c with
  | nil => exact ⟨Page.chars_lineBreak p c, rfl, rfl⟩
  | cons d run ih =>
    obtain ⟨hchars, hcolumn, hindent⟩ := ih (p.lineBreak c) d
    exact ⟨by rw [List.foldl_cons, hchars]; simp, hcolumn, hindent⟩

/-- Line ends are written as they are, with one more in front where the first would fold, and the text
goes on in the indentation of the next line. -/
theorem chars_breaks (hn : 0 < n) (p : Page) (c : Char) (run : List Char) :
    (((c :: run).foldl (fun p b => p.lineBreak b) (if c == '\n' then p.lineBreak '\n' else p)).indentTo
      n).chars = p.chars ++ ((if c == '\n' then ['\n'] else []) ++ (c :: run) ++ List.replicate n ' ') ∧
    (((c :: run).foldl (fun p b => p.lineBreak b) (if c == '\n' then p.lineBreak '\n' else p)).indentTo
      n).column = n := by
  obtain ⟨hchars, hcolumn, hindent⟩ :=
    chars_lineBreaks (if c == '\n' then p.lineBreak '\n' else p) c run
  obtain ⟨hchars', hcolumn', _, _⟩ := Page.indentTo_sameLine hindent (by omega : _ < n)
  refine ⟨?_, hcolumn'⟩
  rw [hchars', hchars, hcolumn]
  split <;> simp

theorem isKept_breaks (hkept : ∀ d ∈ run, isKept d = true) (n : Nat) :
    ∀ d ∈ (if c == '\n' then ['\n'] else []) ++ run ++ List.replicate n ' ', isKept d = true := by
  intro d hd
  rcases List.mem_append.mp hd with hd | hd
  · rcases List.mem_append.mp hd with hd | hd
    · split at hd
      · obtain rfl : d = '\n' := by simpa using hd
        decide
      · cases hd
    · exact hkept d hd
  · rw [List.eq_of_mem_replicate hd]
    decide

theorem blanks_eq_replicate (h : ∀ d ∈ ' ' :: run, gapKind d = 1) :
    ' ' :: run = List.replicate (run.length + 1) ' ' := by
  rw [List.eq_replicate_iff]
  exact ⟨rfl, fun d hd => gapKind_eq_one.mp (h d hd)⟩

theorem single_runs (hn : 0 < n) (split : Bool) : ∀ (groups : List (List Char)) (first : Bool)
    (previous : Option Char) (p : Page), Runs gapKind groups → SingleRest previous groups.flatten →
      PenFor n p groups.flatten →
        WrittenSingle p (singleRuns n split first groups p) groups.flatten
  | [], _, _, p, _, _, _ => ⟨[], by simp [singleRuns], by simp, .nil false, fun _ => opens_nil⟩
  | (c :: run) :: groups, first, previous, p, hruns, hrest, hpen => by
    cases hruns with
    | cons hsame hother hmore =>
    have hbehind := SingleRest.behind hrest
    have hrun : ∀ d ∈ c :: run, gapKind d = gapKind c := by
      intro d hd
      cases hd with
      | head => rfl
      | tail _ hd => exact hsame d hd
    have hordinary : ∀ d ∈ c :: run, isOrdinary d = true := fun d hd =>
      hrest.ordinary d (List.mem_append_left _ hd)
    have hkept : ∀ d ∈ c :: run, isKept d = true := fun d hd => isKept_of_isOrdinary (hordinary d hd)
    by_cases hzero : gapKind c = 0
    · rw [singleRuns_text hzero]
      have hne : ((c :: run).flatMap fun c => if c.toNat == 39 then [c, c] else [c]) ≠ [] := by
        rw [List.flatMap_cons]
        split <;> simp
      exact single_text (fun d hd => (hrun d hd).trans hzero) hordinary
        (single_runs hn split groups false _ _ hmore hbehind (hpen.put hne))
    -- Behind a gap the text goes on with a visible character, so no blank begins the next line.
    have hnext := hrest.behind_gap hzero hsame hother
    have hgap : ∃ d, (c :: run).head? = some d ∧ gapKind d ≠ 0 := ⟨c, rfl, hzero⟩
    have hpen' {q : Page} (hcolumn : q.column = n) : PenFor n q groups.flatten :=
      .inr (.inr ⟨hcolumn.symm, fun hhead => by cases hnext ' ' hhead⟩)
    by_cases hblank : c = ' '
    · subst hblank
      rw [singleRuns_blanks, List.flatten_cons]
      split
      · next hfold =>
        obtain rfl : run = [] := by
          simp only [Bool.and_eq_true, beq_iff_eq] at hfold
          simpa using hfold.1.1.1.1
        have hline := Page.indentTo_newLine (p := p) (n := n) (by
          rcases hpen with h | h | ⟨_, h⟩
          · exact .inl h
          · exact .inr h
          · exact absurd rfl h)
        exact (single_runs hn split groups false _ _ hmore hbehind (hpen' hline.column)).of_gap
          hline.chars isKept_lineStart hgap (fun src hopens => .line hn hopens) hnext
      · refine (single_runs hn split groups false _ _ hmore hbehind
          (hpen.put (List.cons_ne_nil ' ' run))).of_gap (Page.chars_put p _) hkept hgap
          (fun src hopens hreads => ?_) hnext
        rw [blanks_eq_replicate hrun]
        exact .blanks (Nat.succ_pos _) hopens hreads
    · have htwo : gapKind c = 2 := by
        rw [gapKind_eq_two]
        rw [gapKind_eq_zero, not_and] at hzero
        simpa using hzero hblank
      have hbreaks : ∀ d ∈ c :: run, isFaithfulBreak d = true := fun d hd => by
        have hne := hrest.faithful d (List.mem_append_left _ hd)
        simp [isFaithfulBreak, gapKind_eq_two.mp ((hrun d hd).trans htwo), hne]
      obtain ⟨hchars, hcolumn⟩ := chars_breaks hn p c run
      rw [singleRuns_breaks htwo, List.flatten_cons]
      exact (single_runs hn split groups false _ _ hmore hbehind (hpen' hcolumn)).of_gap hchars
        (isKept_breaks hkept n) hgap (fun src hopens => .breaks hn hopens hbreaks) hnext

/-- A text without special characters is written in single quotes so that it is read back. -/
theorem writeSingle_reads {cs : List Char} (hn : 0 < n) (h : (analyze cs).single = true)
    (hfaithful : ∀ c ∈ cs, c.toNat ≠ 0x85) (split : Bool) (p : Page) :
    ∃ src, (writeSingle n split cs p).chars =
        p.chars ++ (p.gap ++ quoteOf false :: (src ++ [quoteOf false])) ∧
      (∀ c ∈ src, isKept c = true) ∧ QuotedReads false src cs ∧
      (writeSingle n split cs p).atIndent = false := by
  obtain ⟨hruns, hflatten⟩ := runs_spec gapKind cs
  have hrest := singleRest_of_analyze h hfaithful
  rw [← hflatten] at hrest
  obtain ⟨src, hsrc, hkept, hreads, _⟩ := single_runs hn split _ true none
    (p.indicator [quoteOf false] true false false) hruns hrest (.inl (by simp))
  rw [hflatten] at hreads
  refine ⟨src, ?_, hkept, hreads, by simp [writeSingle]⟩
  rw [Page.chars_indicator] at hsrc
  change (Page.indicator [quoteOf false] false false false (singleRuns n split true (runs gapKind cs)
    (p.indicator [quoteOf false] true false false))).chars = _
  rw [Page.chars_indicator_close, hsrc]
  simp

end JudgedLint.Yaml
