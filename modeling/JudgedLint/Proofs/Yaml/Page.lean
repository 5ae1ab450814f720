import JudgedLint.Yaml.Printer
import JudgedLint.Proofs.Yaml.Cursor

/-! What stands on a page, and the runs into which a text is cut before it is written. -/
namespace JudgedLint.Yaml

namespace Page

variable {p : Page} {cs : List Char} {n : Nat}

def chars (p : Page) : List Char := p.written.reverse.flatten

theorem text_eq (p : Page) : p.text = String.ofList p.chars := rfl

@[simp] theorem chars_put (p : Page) (cs : List Char) : (p.put cs).chars = p.chars ++ cs := by
  simp [chars, put]

@[simp] theorem chars_lineBreak (p : Page) (c : Char) : (p.lineBreak c).chars = p.chars ++ [c] := by
  simp [chars, lineBreak]

@[simp] theorem chars_flags (p : Page) (column : Nat) (afterGap atIndent : Bool) :
    (Page.mk p.written column afterGap atIndent).chars = p.chars := rfl

def gap (p : Page) : List Char := if p.afterGap then [] else [' ']

theorem chars_indicator (p : Page) (cs : List Char) (gapAfter keepsIndent : Bool) :
    (p.indicator cs true gapAfter keepsIndent).chars = p.chars ++ (p.gap ++ cs) := by
  unfold indicator gap
  cases p.afterGap <;> simp

theorem chars_indicator_close (p : Page) (cs : List Char) (gapAfter keepsIndent : Bool) :
    (p.indicator cs false gapAfter keepsIndent).chars = p.chars ++ cs := by
  simp [indicator]

@[simp] theorem indicator_flags (p : Page) (cs : List Char) (needGap gapAfter keepsIndent : Bool) :
    (p.indicator cs needGap gapAfter keepsIndent).afterGap = gapAfter ∧
    (p.indicator cs needGap gapAfter keepsIndent).atIndent = (p.atIndent && keepsIndent) :=
  ⟨rfl, rfl⟩

/-- A page at the start of a line, in front of its text. -/
structure AtLine (p q : Page) (n : Nat) : Prop where
  chars : q.chars = p.chars ++ lineStart n
  column : q.column = n
  afterGap : q.afterGap = true
  atIndent : q.atIndent = true

theorem indentTo_newLine (h : p.atIndent = false ∨ n < p.column) : AtLine p (p.indentTo n) n := by
  have hbreak : (!p.atIndent || decide (n < p.column) || (p.column == n && !p.afterGap)) = true := by
    rcases h with h | h <;> simp [h]
  unfold indentTo
  rw [if_pos hbreak]
  dsimp only
  split
  · exact ⟨by simp [chars, lineBreak, put, lineStart], by simp [lineBreak, put], rfl, rfl⟩
  · next hn =>
    obtain rfl : n = 0 := Nat.eq_zero_of_not_pos hn
    exact ⟨by simp [chars, lineBreak, lineStart], rfl, rfl, rfl⟩

theorem indentTo_sameLine (hindent : p.atIndent = true) (hcolumn : p.column < n) :
    (p.indentTo n).chars = p.chars ++ List.replicate (n - p.column) ' ' ∧
    (p.indentTo n).column = n ∧ (p.indentTo n).afterGap = true ∧ (p.indentTo n).atIndent = true := by
  have hkeep : ¬(!p.atIndent || decide (n < p.column) || (p.column == n && !p.afterGap)) = true := by
    have hle : ¬n < p.column := by omega
    have hne : ¬p.column = n := by omega
    simp [hindent, hle, hne]
  unfold indentTo
  rw [if_neg hkeep, if_pos hcolumn]
  refine ⟨by simp [chars, put], ?_, rfl, hindent⟩
  simp only [put, List.length_replicate]
  omega

end Page

/-- Runs of characters of one kind, each as long as it can be. -/
inductive Runs (kind : Char → Nat) : List (List Char) → Prop
  | nil : Runs kind []
  | cons {c : Char} {run : List Char} {rest : List (List Char)} (same : ∀ d ∈ run, kind d = kind c)
      (other : ∀ d, rest.flatten.head? = some d → kind d ≠ kind c) (more : Runs kind rest) :
      Runs kind ((c :: run) :: rest)

theorem runs_spec (kind : Char → Nat) (cs : List Char) :
    Runs kind (runs kind cs) ∧ (runs kind cs).flatten = cs := by
  induction cs with
  | nil => exact ⟨.nil, rfl⟩
  | cons c rest ih =>
    obtain ⟨hruns, hflatten⟩ := ih
    unfold runs
    revert hruns hflatten
    generalize runs kind rest = groups
    intro hruns hflatten
    cases hruns with
    | nil =>
      cases hflatten
      exact ⟨.cons (by simp) (by simp) .nil, rfl⟩
    | @cons d run more hsame hother hmore =>
      dsimp only
      split
      · next hkind =>
        have hkind : kind c = kind d := by simpa using hkind
        refine ⟨.cons ?_ ?_ hmore, by simp [← hflatten]⟩
        · intro e he
          rw [hkind]
          cases he with
          | head => rfl
          | tail _ he => exact hsame e he
        · rw [hkind]
          exact hother
      · next hkind =>
        have hkind : ¬kind c = kind d := by simpa using hkind
        refine ⟨.cons (by simp) ?_ (.cons hsame hother hmore), by simp [← hflatten]⟩
        intro e he
        cases he
        exact fun heq => hkind heq.symm

end JudgedLint.Yaml
