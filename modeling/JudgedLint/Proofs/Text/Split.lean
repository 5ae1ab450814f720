import JudgedLint.Text.Search
import Mathlib.Data.List.Basic

/-! Text in parts between the occurrences of a character. -/
namespace JudgedLint.Text

variable {sep : Char} {part rest cs : List Char}

theorem splitOnChar_of_notMem (h : sep ∉ part) : splitOnChar sep part = [part] := by
  induction part with
  | nil => rfl
  | cons c part ih =>
    rw [List.mem_cons, not_or] at h
    rw [splitOnChar, if_neg (by simpa using Ne.symm h.1), ih h.2]

theorem splitOnChar_append (h : sep ∉ part) :
    splitOnChar sep (part ++ sep :: rest) = part :: splitOnChar sep rest := by
  induction part with
  | nil => rw [List.nil_append, splitOnChar, if_pos (by simp)]
  | cons c part ih =>
    rw [List.mem_cons, not_or] at h
    rw [List.cons_append, splitOnChar, if_neg (by simpa using Ne.symm h.1), ih h.2]

theorem splitOnChar_ne_nil (sep : Char) (cs : List Char) : splitOnChar sep cs ≠ [] := by
  cases cs with
  | nil => exact List.cons_ne_nil _ _
  | cons c rest =>
    rw [splitOnChar]
    split
    · exact List.cons_ne_nil _ _
    · split <;> exact List.cons_ne_nil _ _

theorem notMem_splitOnChar (sep : Char) (cs : List Char) : ∀ part ∈ splitOnChar sep cs, sep ∉ part := by
  fun_induction splitOnChar sep cs with
  | case1 => simp
  | case2 c rest _ ih => simpa using ih
  | case3 c rest _ hnil => exact absurd hnil (splitOnChar_ne_nil sep rest)
  | case4 c rest hc part parts heq ih =>
    rw [heq] at ih
    intro part' hpart'
    rcases List.mem_cons.mp hpart' with rfl | hpart'
    · rw [List.mem_cons, not_or]
      exact ⟨fun h => hc (by simp [h]), ih part List.mem_cons_self⟩
    · exact ih part' (List.mem_cons_of_mem _ hpart')

theorem mem_of_mem_splitOnChar {c : Char} (h : part ∈ splitOnChar sep cs) (hc : c ∈ part) : c ∈ cs := by
  fun_induction splitOnChar sep cs generalizing part with
  | case1 =>
    rw [List.mem_singleton] at h
    exact h ▸ hc
  | case2 d rest _ ih =>
    rcases List.mem_cons.mp h with rfl | h
    · cases hc
    · exact List.mem_cons_of_mem d (ih h hc)
  | case3 d rest _ hnil => exact absurd hnil (splitOnChar_ne_nil sep rest)
  | case4 d rest hd first parts heq ih =>
    rw [heq] at ih
    rcases List.mem_cons.mp h with rfl | h
    · rcases List.mem_cons.mp hc with rfl | hc
      · exact List.mem_cons_self
      · exact List.mem_cons_of_mem d (ih List.mem_cons_self hc)
    · exact List.mem_cons_of_mem d (ih (List.mem_cons_of_mem first h) hc)

theorem split_cases (sep : Char) (cs : List Char) :
    sep ∉ cs ∨ ∃ part rest, sep ∉ part ∧ cs = part ++ sep :: rest := by
  by_cases h : sep ∈ cs
  · obtain ⟨part, rest, rfl, hpart⟩ := List.eq_append_cons_of_mem h
    exact .inr ⟨part, rest, hpart, rfl⟩
  · exact .inl h

theorem splitOnChar_eq_singleton : splitOnChar sep cs = [part] ↔ cs = part ∧ sep ∉ cs := by
  constructor
  · intro h
    rcases split_cases sep cs with hout | ⟨first, rest, hout, rfl⟩
    · rw [splitOnChar_of_notMem hout, List.singleton_inj] at h
      exact ⟨h, hout⟩
    · rw [splitOnChar_append hout, List.cons.injEq] at h
      exact absurd h.2 (splitOnChar_ne_nil sep rest)
  · rintro ⟨rfl, hout⟩
    exact splitOnChar_of_notMem hout

theorem splitOnChar_eq_append {front parts : List (List Char)}
    (h : splitOnChar sep cs = front ++ parts) (hparts : parts ≠ []) :
    ∃ rest, (∀ part ∈ front, sep ∉ part) ∧ cs = front.flatMap (· ++ [sep]) ++ rest ∧
      splitOnChar sep rest = parts := by
  induction front generalizing cs with
  | nil => exact ⟨cs, by simp, rfl, h⟩
  | cons part front ih =>
    rcases split_cases sep cs with hout | ⟨part', rest, hout, rfl⟩
    · rw [splitOnChar_of_notMem hout, List.cons_append, List.cons.injEq] at h
      exact absurd (List.append_eq_nil_iff.mp h.2.symm).2 hparts
    · rw [splitOnChar_append hout, List.cons_append, List.cons.injEq] at h
      obtain ⟨rfl, h⟩ := h
      obtain ⟨rest', hfront, rfl, hrest⟩ := ih h
      refine ⟨rest', ?_, by simp, hrest⟩
      intro other hother
      rcases List.mem_cons.mp hother with rfl | hother
      · exact hout
      · exact hfront other hother

theorem splitOnChar_flatMap {front : List (List Char)} (h : ∀ part ∈ front, sep ∉ part)
    (rest : List Char) :
    splitOnChar sep (front.flatMap (· ++ [sep]) ++ rest) = front ++ splitOnChar sep rest := by
  induction front with
  | nil => rfl
  | cons part front ih =>
    rw [List.flatMap_cons, List.append_assoc, List.append_assoc, List.singleton_append,
      splitOnChar_append (h part List.mem_cons_self),
      ih fun other hother => h other (List.mem_cons_of_mem part hother), List.cons_append]

theorem mem_intercalate {c : Char} {xs : List (List Char)} (h : c ∈ [sep].intercalate xs) :
    c = sep ∨ ∃ x ∈ xs, c ∈ x := by
  induction xs with
  | nil => cases h
  | cons x xs ih =>
    cases xs with
    | nil =>
      rw [List.intercalate_singleton] at h
      exact .inr ⟨x, List.mem_cons_self, h⟩
    | cons y xs =>
      rw [List.intercalate_cons_cons, List.append_assoc, List.mem_append, List.singleton_append,
        List.mem_cons] at h
      rcases h with h | h | h
      · exact .inr ⟨x, List.mem_cons_self, h⟩
      · exact .inl h
      · rcases ih h with hsep | ⟨z, hz, hc⟩
        · exact .inl hsep
        · exact .inr ⟨z, List.mem_cons_of_mem x hz, hc⟩

theorem splitOnChar_intercalate {parts : List (List Char)} (hne : parts ≠ [])
    (h : ∀ part ∈ parts, sep ∉ part) : splitOnChar sep ([sep].intercalate parts) = parts := by
  induction parts with
  | nil => exact absurd rfl hne
  | cons part parts ih =>
    have hpart := h part List.mem_cons_self
    cases parts with
    | nil => rw [List.intercalate_singleton, splitOnChar_of_notMem hpart]
    | cons next parts =>
      rw [List.intercalate_cons_cons, List.append_assoc, List.singleton_append, splitOnChar_append hpart,
        ih (List.cons_ne_nil _ _) fun other hother => h other (List.mem_cons_of_mem part hother)]

end JudgedLint.Text
