import JudgedLint.Proofs.Pattern.Segments
import JudgedLint.Workspace.Path

/-! Paths as segments and as texts: what `..` leaves of the segments, how one list of segments is
reached from another, and that the text of a relative path reads back as its segments. -/
namespace JudgedLint.Workspace.Path

open Pattern (normalizeChars normalizePath normalizeChars_of_ne)

variable {name : String} {parts front more : List String}

/-! ## Taking `..` away -/

theorem collapse_concat_of_notMem (h : ".." ∉ collapse true parts) (name : String) :
    collapse true (parts ++ [name]) =
      if name = ".." then (collapse true parts).dropLast else collapse true parts ++ [name] := by
  simp only [collapse, List.mem_reverse, List.foldl_append, List.foldl_cons, List.foldl_nil] at h ⊢
  generalize parts.foldl _ [] = done at h ⊢
  by_cases hup : name = ".."
  · rw [if_pos (by simpa using hup), if_pos hup]
    cases done with
    | nil => rfl
    | cons last rest =>
      have hlast : (last == "..") = false := by
        simpa using fun hlast : last = ".." => h (hlast ▸ List.mem_cons_self)
      simp [hlast]
  · rw [if_neg (by simpa using hup), if_neg hup, List.reverse_cons]

theorem up_notMem_collapse (parts : List String) : ".." ∉ collapse true parts := by
  induction parts using List.reverseRecOn with
  | nil => exact List.not_mem_nil
  | append_singleton parts name ih =>
    rw [collapse_concat_of_notMem ih]
    split
    · exact fun h => ih (List.mem_of_mem_dropLast h)
    · next hname => simpa [ih] using Ne.symm hname

theorem collapse_concat (parts : List String) (h : name ≠ "..") :
    collapse true (parts ++ [name]) = collapse true parts ++ [name] := by
  rw [collapse_concat_of_notMem (up_notMem_collapse parts), if_neg h]

theorem collapse_concat_up (parts : List String) :
    collapse true (parts ++ [".."]) = (collapse true parts).dropLast := by
  rw [collapse_concat_of_notMem (up_notMem_collapse parts), if_pos rfl]

theorem mem_of_mem_collapse (h : name ∈ collapse true parts) : name ∈ parts := by
  induction parts using List.reverseRecOn with
  | nil => exact h
  | append_singleton parts last ih =>
    by_cases hlast : last = ".."
    · rw [hlast, collapse_concat_up] at h
      exact List.mem_append_left _ (ih (List.mem_of_mem_dropLast h))
    · rw [collapse_concat parts hlast, List.mem_append] at h
      exact List.mem_append.mpr (h.imp_left ih)

theorem collapse_append (parts : List String) (h : ".." ∉ more) :
    collapse true (parts ++ more) = collapse true parts ++ more := by
  induction more using List.reverseRecOn with
  | nil => rw [List.append_nil, List.append_nil]
  | append_singleton more name ih =>
    rw [List.mem_append, not_or] at h
    rw [← List.append_assoc, collapse_concat _ fun hname => h.2 (by simp [hname]), ih h.1,
      List.append_assoc]

theorem collapse_of_notMem (h : ".." ∉ parts) : collapse true parts = parts :=
  collapse_append [] h

/-! ## From one list of segments to another -/

theorem relativeParts_append (front start target : List String) :
    relativeParts (front ++ start) (front ++ target) = relativeParts start target := by
  induction front with
  | nil => rfl
  | cons part front ih => rw [List.cons_append, List.cons_append, relativeParts, if_pos (by simp), ih]

theorem relativeParts_below (start more : List String) : relativeParts start (start ++ more) = more := by
  have h := relativeParts_append start [] more
  rw [List.append_nil] at h
  rw [h, relativeParts]
  · rfl
  · simp

/-- The way goes up as often as `start` has segments of its own. -/
theorem relativeParts_eq (start target : List String) :
    ∃ common rest down, start = common ++ rest ∧ target = common ++ down ∧
      relativeParts start target = List.replicate rest.length ".." ++ down := by
  fun_induction relativeParts start target with
  | case1 a start b target heq ih =>
    obtain rfl := beq_iff_eq.mp heq
    obtain ⟨common, rest, down, rfl, rfl, h⟩ := ih
    exact ⟨a :: common, rest, down, rfl, rfl, h⟩
  | case2 a start b target =>
    exact ⟨[], a :: start, b :: target, rfl, rfl, by simp [List.map_const', List.replicate_succ]⟩
  | case3 start target => exact ⟨[], start, target, rfl, rfl, by simp [List.map_const']⟩

theorem mem_relativeParts {start target : List String} (h : name ∈ relativeParts start target) :
    name = ".." ∨ name ∈ target := by
  obtain ⟨common, rest, down, rfl, rfl, heq⟩ := relativeParts_eq start target
  rw [heq, List.mem_append] at h
  exact h.imp List.eq_of_mem_replicate (List.mem_append_right _)

/-- Some of the directories are left, with segments of the path behind them. -/
theorem collapse_below {dirs : List String} (hdirs : ".." ∉ dirs) (more : List String) :
    ∃ kept gone down, dirs = kept ++ gone ∧ collapse true (dirs ++ more) = kept ++ down ∧ down ⊆ more := by
  induction more using List.reverseRecOn with
  | nil =>
    refine ⟨dirs, [], [], (List.append_nil dirs).symm, ?_, List.nil_subset _⟩
    rw [List.append_nil, collapse_of_notMem hdirs]
  | append_singleton more name ih =>
    obtain ⟨kept, gone, down, rfl, heq, hdown⟩ := ih
    rw [← List.append_assoc]
    by_cases hup : name = ".."
    · rw [hup, collapse_concat_up, heq]
      rcases List.eq_nil_or_concat' down with rfl | ⟨above, last, rfl⟩
      · rcases List.eq_nil_or_concat' kept with rfl | ⟨above, last, rfl⟩
        · exact ⟨[], gone, [], rfl, rfl, by simp⟩
        · exact ⟨above, last :: gone, [], by simp, by simp, by simp⟩
      · refine ⟨kept, gone, above, rfl, by rw [← List.append_assoc, List.dropLast_concat], fun part hpart => ?_⟩
        exact List.mem_append_left _ (hdown (List.mem_append_left _ hpart))
    · rw [collapse_concat _ hup, heq, List.append_assoc]
      exact ⟨kept, gone, down ++ [name], rfl, rfl, List.append_subset.mpr
        ⟨fun part hpart => List.mem_append_left _ (hdown hpart), by simp⟩⟩

theorem mem_relativeParts_collapse {dirs : List String} (hdirs : ".." ∉ dirs)
    (h : name ∈ relativeParts dirs (collapse true (dirs ++ more))) : name = ".." ∨ name ∈ more := by
  obtain ⟨kept, gone, down, rfl, heq, hdown⟩ := collapse_below hdirs more
  rw [heq, relativeParts_append] at h
  exact (mem_relativeParts h).imp_right fun h => hdown h

/-! ## Texts -/

/-- A text that stands for itself between slashes. -/
structure IsSegment (s : String) : Prop where
  nonempty : s ≠ ""
  other : s ≠ "."
  slash : '/' ∉ s.toList

theorem isSegment_iff {s : String} : IsSegment s ↔ s ≠ "" ∧ s ≠ "." ∧ '/' ∉ s.toList :=
  ⟨fun h => ⟨h.nonempty, h.other, h.slash⟩, fun h => ⟨h.1, h.2.1, h.2.2⟩⟩

instance (s : String) : Decidable (IsSegment s) := decidable_of_iff' _ isSegment_iff

theorem IsSegment.toList_eq {s : String} (h : IsSegment s) :
    ∃ c cs, s.toList = c :: cs ∧ c ≠ '/' ∧ '/' ∉ cs := by
  cases hchars : s.toList with
  | nil => exact absurd (String.toList_eq_nil_iff.mp hchars) h.nonempty
  | cons c cs =>
    have hslash := h.slash
    rw [hchars, List.mem_cons, not_or] at hslash
    exact ⟨c, cs, rfl, Ne.symm hslash.1, hslash.2⟩

theorem toList_mem_of_mem_split {sep : Char} {s : String} (h : name ∈ Text.split sep s) :
    name.toList ∈ Text.splitOnChar sep s.toList := by
  obtain ⟨part, hpart, rfl⟩ := List.mem_map.mp h
  rwa [String.toList_ofList]

theorem isSegment_of_mem_ofText {s : String} (h : name ∈ (ofText s).parts) : IsSegment name := by
  obtain ⟨hsplit, hkept⟩ := List.mem_filter.mp h
  simp only [Bool.and_eq_true, bne_iff_ne] at hkept
  exact ⟨hkept.1, hkept.2, Text.notMem_splitOnChar '/' _ _ (toList_mem_of_mem_split hsplit)⟩

theorem mem_of_mem_ofText {s : String} {c : Char} (h : name ∈ (ofText s).parts) (hc : c ∈ name.toList) :
    c ∈ s.toList :=
  Text.mem_of_mem_splitOnChar (toList_mem_of_mem_split (List.mem_filter.mp h).1) hc

theorem toList_text (h : parts ≠ []) :
    (text ⟨"", parts⟩).toList = ['/'].intercalate (parts.map String.toList) := by
  rw [text, if_neg (by simpa using h), String.toList_append, Text.join, String.toList_intercalate]
  rfl

theorem toList_text_cons (part : String) (rest : List String) :
    ∃ cs, (text ⟨"", part :: rest⟩).toList = part.toList ++ cs ∧ (cs = [] ∨ ∃ cs', cs = '/' :: cs') := by
  rw [toList_text (List.cons_ne_nil _ _), List.map_cons]
  cases rest with
  | nil => exact ⟨[], by rw [List.map_nil, List.intercalate_singleton, List.append_nil], .inl rfl⟩
  | cons next rest =>
    rw [List.map_cons, List.intercalate_cons_cons, List.append_assoc]
    exact ⟨_, rfl, .inr ⟨_, rfl⟩⟩

theorem leadOf_of_ne {s : String} (h : ∀ cs, s.toList ≠ '/' :: cs) : leadOf s = "" := by
  rw [leadOf]
  split
  · next cs hs => exact absurd hs (h _)
  · next cs hs => exact absurd hs (h _)
  · next cs hs => exact absurd hs (h _)
  · rfl

theorem ofText_text (h : ∀ part ∈ parts, IsSegment part) : ofText (text ⟨"", parts⟩) = ⟨"", parts⟩ := by
  cases parts with
  | nil => decide
  | cons part rest =>
    have hlead : leadOf (text ⟨"", part :: rest⟩) = "" := by
      obtain ⟨more, hmore, _⟩ := toList_text_cons part rest
      obtain ⟨c, chars, hchars, hc, _⟩ := (h part List.mem_cons_self).toList_eq
      refine leadOf_of_ne fun cs hcs => hc ?_
      rw [hmore, hchars, List.cons_append, List.cons.injEq] at hcs
      exact hcs.1
    have hsplit : Text.split '/' (text ⟨"", part :: rest⟩) = part :: rest := by
      rw [Text.split, toList_text (List.cons_ne_nil _ _), Text.splitOnChar_intercalate (by simp)]
      · simp [Function.comp_def]
      · intro chars hchars
        obtain ⟨other, hother, rfl⟩ := List.mem_map.mp hchars
        exact (h other hother).slash
    rw [ofText, hlead, hsplit, List.filter_eq_self.mpr]
    intro other hother
    simp [(h other hother).nonempty, (h other hother).other]

theorem normalizePath_text (h : ∀ part ∈ parts, IsSegment part)
    (hslash : ∀ part ∈ parts, '\\' ∉ part.toList) :
    normalizePath (text ⟨"", parts⟩) = text ⟨"", parts⟩ := by
  cases parts with
  | nil => decide
  | cons part rest =>
    rw [normalizePath, normalizeChars_of_ne, String.ofList_toList]
    · rw [toList_text (List.cons_ne_nil _ _)]
      intro hin
      rcases Text.mem_intercalate hin with heq | ⟨chars, hchars, hin⟩
      · exact absurd heq (by decide)
      · obtain ⟨other, hother, rfl⟩ := List.mem_map.mp hchars
        exact hslash other hother hin
    · intro cs hcs
      obtain ⟨more, hmore, _⟩ := toList_text_cons part rest
      obtain ⟨c, chars, hchars, hc, hslash⟩ := (h part List.mem_cons_self).toList_eq
      rw [hmore, hchars, List.cons_append, List.cons.injEq] at hcs
      obtain ⟨rfl, hcs⟩ := hcs
      cases chars with
      | nil => exact (h part List.mem_cons_self).other (String.toList_inj.mp hchars)
      | cons d chars =>
        rw [List.cons_append, List.cons.injEq] at hcs
        exact hslash (hcs.1 ▸ List.mem_cons_self)

end JudgedLint.Workspace.Path
