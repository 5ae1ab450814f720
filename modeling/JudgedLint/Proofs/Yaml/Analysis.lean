import JudgedLint.Yaml.Printer
import JudgedLint.Proofs.Yaml.Cursor

/-! What the analysis of a text says of its characters and of their neighbours. -/
namespace JudgedLint.Yaml

variable {c : Char} {cs as bs : List Char} {p : Option Char → Char → Option Char → Bool}
  {previous : Option Char}

/-- Characters of documents that are no line end a file would change. -/
def isKept (c : Char) : Bool := isAllowed c && c != '\r'

theorem isInert_of_isOrdinary (h : isOrdinary c = true) (hbreak : isTextBreak c = false) :
    isInert c = true := by
  simp only [isOrdinary, isTextBreak, isInert, isBreak, Bool.or_eq_true, Bool.and_eq_true,
    beq_iff_eq, decide_eq_true_eq, bne_iff_ne, Bool.not_eq_true', Bool.or_eq_false_iff,
    beq_eq_false_iff_ne, ne_eq, ← Char.toNat_inj] at *
  simp at *
  omega

/-- The only gap that an ordinary character of a line can be is a blank. -/
theorem isGap_of_isOrdinary (h : isOrdinary c = true) (hbreak : isTextBreak c = false) :
    isGap c = (c == ' ') := by
  rw [Bool.eq_iff_iff]
  simp only [isOrdinary, isTextBreak, isGap, isSpaceBreakOrEnd, isBreakOrEnd, isEnd, endChar, isBreak,
    Bool.or_eq_true, Bool.and_eq_true, beq_iff_eq, decide_eq_true_eq, bne_iff_ne, Bool.or_eq_false_iff,
    beq_eq_false_iff_ne, ne_eq, ← Char.toNat_inj] at *
  simp at *
  omega

theorem isKept_of_isOrdinary (h : isOrdinary c = true) : isKept c = true := by
  cases hstand : Text.isStandIn c <;>
  · simp only [isOrdinary, isKept, isAllowed, Bool.or_eq_true, Bool.and_eq_true, beq_iff_eq,
      decide_eq_true_eq, bne_iff_ne, ne_eq, ← Char.toNat_inj, hstand] at *
    simp at *
    omega

theorem isKept_lineStart {n : Nat} : ∀ c ∈ lineStart n, isKept c = true := by
  intro c hc
  rcases List.mem_cons.mp hc with rfl | hc
  · decide
  · rw [List.eq_of_mem_replicate hc]
    decide

theorem anyBetween_cons : anyBetween p previous (c :: cs) = false ↔
    p previous c cs.head? = false ∧ anyBetween p (some c) cs = false := by
  rw [anyBetween, Bool.or_eq_false_iff]

theorem anyBetween_append (h : anyBetween p previous (c :: as ++ bs) = false) :
    anyBetween p ((c :: as).getLast?) bs = false := by
  induction as generalizing previous c with
  | nil => exact (anyBetween_cons.mp h).2
  | cons d as ih =>
    rw [List.getLast?_cons_cons]
    exact ih (anyBetween_cons.mp h).2

structure PlainText (cs : List Char) : Prop where
  ordinary : ∀ c ∈ cs, isOrdinary c = true ∧ isTextBreak c = false
  first : cs.head? ≠ some ' '
  last : cs.getLast? ≠ some ' '
  clean : anyBetween isBlockSyntax none cs = false

theorem plainText_of_analyze (hne : cs ≠ []) (h : (analyze cs).plain = true) : PlainText cs := by
  obtain ⟨first, rest, rfl⟩ := List.exists_cons_of_ne_nil hne
  simp only [analyze, Bool.not_eq_true', Bool.or_eq_false_iff, List.any_eq_false,
    Bool.not_eq_true, Bool.not_eq_false] at h
  obtain ⟨⟨⟨⟨⟨⟨hfirst, hlast⟩, _⟩, _⟩, hspecial⟩, hbreaks⟩, _, hclean⟩ := h
  refine ⟨fun c hc => ⟨by simpa using hspecial c hc, hbreaks c hc⟩, ?_, ?_, hclean⟩
  · rintro ⟨⟩
    simp at hfirst
  · intro heq
    rw [heq] at hlast
    simp at hlast

end JudgedLint.Yaml
