import JudgedLint.Yaml.Cursor

/-! How a cursor moves over text of known content: one column for each character of a line, and to
the indentation of the next line over a line end. -/
namespace JudgedLint.Yaml

/-- Characters that move a cursor on by one column. -/
def isInert (c : Char) : Bool := !isBreak c && c != '\uFEFF'

def lineStart (n : Nat) : List Char := '\n' :: List.replicate n ' '

/-- Where a token can begin: behind the blanks, comments and line ends that are passed over. -/
def isCalm (c : Char) : Bool := c != ' ' && c != '#' && isInert c

def Calm (cs : List Char) : Prop := isCalm (cs.headD endChar) = true

theorem Calm.nil : Calm [] := show isCalm endChar = true by decide

variable {cs rest : List Char} {c : Char} {i l k n : Nat}

theorem Calm.head (h : Calm cs) : cs.headD endChar ≠ ' ' ∧ cs.headD endChar ≠ '#' ∧
    isBreak (cs.headD endChar) = false ∧ cs.headD endChar ≠ '\uFEFF' := by
  simpa [Calm, isCalm, isInert, and_assoc] using h

namespace Cursor

@[simp] theorem peek_mk : (Cursor.mk cs i l k).peek = cs.headD endChar := rfl

theorem next_inert (h : isInert c = true) :
    (Cursor.mk (c :: rest) i l k).next = ⟨rest, i + 1, l, k + 1⟩ := by
  simp only [isInert, Bool.and_eq_true, Bool.not_eq_true', bne_iff_ne, ne_eq] at h
  simp [next, h.1, h.2]

theorem forward_inert (h : ∀ c ∈ cs, isInert c = true) :
    (Cursor.mk (cs ++ rest) i l k).forward cs.length = ⟨rest, i + cs.length, l, k + cs.length⟩ := by
  induction cs generalizing i k with
  | nil => rfl
  | cons c cs ih =>
    rw [List.length_cons, forward, List.cons_append, next_inert (h c List.mem_cons_self),
      ih fun c hc => h c (List.mem_cons_of_mem _ hc)]
    simp only [Nat.add_assoc, Nat.add_comm 1]

theorem spanWhile_append {p : Char → Bool} (hcs : ∀ c ∈ cs, p c = true)
    (hrest : p (rest.headD endChar) = false ∨ rest = []) :
    (Cursor.mk (cs ++ rest) i l k).spanWhile p =
      (cs, (Cursor.mk (cs ++ rest) i l k).forward cs.length) := by
  have htaken : (cs ++ rest).takeWhile p = cs := by
    rw [List.takeWhile_append_of_pos hcs]
    cases rest with
    | nil => simp
    | cons c rest =>
      have hc : p c = false := by simpa using hrest
      rw [List.takeWhile_cons, hc]
      simp
  rw [spanWhile, htaken]

theorem spanWhile_inert {p : Char → Bool} (hp : ∀ c ∈ cs, p c = true)
    (hinert : ∀ c ∈ cs, isInert c = true) (hrest : p (rest.headD endChar) = false ∨ rest = []) :
    (Cursor.mk (cs ++ rest) i l k).spanWhile p =
      (cs, ⟨rest, i + cs.length, l, k + cs.length⟩) := by
  rw [spanWhile_append hp hrest, forward_inert hinert]

theorem isInert_of_mem_replicate (h : c ∈ List.replicate n ' ') : isInert c = true := by
  rw [List.eq_of_mem_replicate h]
  decide

theorem spanBlanks {p : Char → Bool} (hp : p ' ' = true) (h : p (rest.headD endChar) = false)
    (n i l k : Nat) : (Cursor.mk (List.replicate n ' ' ++ rest) i l k).spanWhile p =
      (List.replicate n ' ', ⟨rest, i + n, l, k + n⟩) := by
  have hblanks : ∀ c ∈ List.replicate n ' ', p c = true := fun c hc => by
    rw [List.eq_of_mem_replicate hc]
    exact hp
  rw [spanWhile_inert hblanks (fun c => isInert_of_mem_replicate) (.inl h), List.length_replicate]

theorem spanNothing {p : Char → Bool} (h : p (rest.headD endChar) = false) (i l k : Nat) :
    (Cursor.mk rest i l k).spanWhile p = ([], ⟨rest, i, l, k⟩) := by
  have hnone : ∀ c ∈ ([] : List Char), p c = true ∧ isInert c = true := by simp
  exact spanWhile_inert (fun c hc => (hnone c hc).1) (fun c hc => (hnone c hc).2) (.inl h)

theorem skipBlanks (h : rest.headD endChar ≠ ' ') :
    (Cursor.mk (List.replicate n ' ' ++ rest) i l k).skipWhile (· == ' ') =
      ⟨rest, i + n, l, k + n⟩ :=
  congrArg Prod.snd (spanBlanks (by rfl) (by simpa using h) n i l k)

theorem skipNoBlanks (h : rest.headD endChar ≠ ' ') :
    (Cursor.mk rest i l k).skipWhile (· == ' ') = ⟨rest, i, l, k⟩ := skipBlanks (n := 0) h

theorem lineBreak_newline :
    (Cursor.mk ('\n' :: rest) i l k).lineBreak = (['\n'], ⟨rest, i + 1, l + 1, 0⟩) := rfl

end Cursor
end JudgedLint.Yaml
