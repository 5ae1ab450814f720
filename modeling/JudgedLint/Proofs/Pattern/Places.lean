import JudgedLint.Pattern.Regex
import Mathlib.Data.List.Infix
import Mathlib.Data.List.Nodup
import Mathlib.Data.List.Perm.Subperm
import Mathlib.Logic.Relation

/-! Following an expression through a text finds its words and nothing else: a place is reached from
another one just if the characters between them are a word. Places are kept from the last to the
first, which is what lets two lists of them be merged in one pass. -/
namespace JudgedLint.Pattern

variable {i j n fuel : Nat} {places last found new : List Nat} {r a b : Regex}

/-- From the last place to the first, each once. -/
abbrev Descending (places : List Nat) : Prop := places.Pairwise (· > ·)

theorem mem_mergePlace {onward : List Nat → List Nat}
    (h : ∀ l, j ∈ onward l ↔ j ∈ new ∨ j ∈ l) (old : List Nat) :
    j ∈ mergePlace i onward old ↔ j = i ∨ j ∈ new ∨ j ∈ old := by
  induction old with
  | nil => simp [mergePlace, h]
  | cons k old ih =>
    unfold mergePlace
    split
    · next heq =>
      obtain rfl : i = k := by simpa using heq
      simp only [List.mem_cons, h]
      tauto
    · split
      · simp only [List.mem_cons, h]
      · simp only [List.mem_cons, ih]
        tauto

theorem mem_mergePlaces (new old : List Nat) : j ∈ mergePlaces new old ↔ j ∈ new ∨ j ∈ old := by
  induction new generalizing old with
  | nil => simp [mergePlaces]
  | cons i new ih => rw [mergePlaces, mem_mergePlace ih, List.mem_cons, or_assoc]

theorem descending_mergePlaces {old : List Nat} (hnew : Descending new) (hold : Descending old) :
    Descending (mergePlaces new old) := by
  induction new generalizing old with
  | nil => exact hold
  | cons i new ih =>
    obtain ⟨hbelow, hnew⟩ := List.pairwise_cons.mp hnew
    rw [mergePlaces]
    induction old with
    | nil =>
      refine List.pairwise_cons.mpr ⟨fun j hj => ?_, ih hnew .nil⟩
      exact hbelow j (by simpa [mem_mergePlaces] using hj)
    | cons k old ihold =>
      obtain ⟨hunder, hold'⟩ := List.pairwise_cons.mp hold
      unfold mergePlace
      split
      · next heq =>
        obtain rfl : i = k := by simpa using heq
        refine List.pairwise_cons.mpr ⟨fun j hj => ?_, ih hnew hold'⟩
        exact ((mem_mergePlaces _ _).mp hj).elim (hbelow j) (hunder j)
      · split
        · next hlt =>
          refine List.pairwise_cons.mpr ⟨fun j hj => ?_, ih hnew hold⟩
          rcases (mem_mergePlaces _ _).mp hj with hj | hj
          · exact hbelow j hj
          · rcases List.mem_cons.mp hj with rfl | hj
            · exact hlt
            · exact (hunder j hj).trans hlt
        · next hne hge =>
          have hlt : i < k := by
            have hne : i ≠ k := by simpa using hne
            omega
          refine List.pairwise_cons.mpr ⟨fun j hj => ?_, ihold hold'⟩
          rcases (mem_mergePlace (mem_mergePlaces new) _).mp hj with rfl | hj | hj
          · exact hlt
          · exact (hbelow j hj).trans hlt
          · exact hunder j hj

theorem newPlaces_sublist (new found : List Nat) : (newPlaces new found).Sublist new := by
  induction new generalizing found with
  | nil => exact List.Sublist.refl _
  | cons i new ih =>
    rw [newPlaces]
    induction found with
    | nil => exact (ih []).cons_cons i
    | cons k found ihfound =>
      unfold newPlace
      split
      · exact (ih found).cons i
      · split
        · exact (ih (k :: found)).cons_cons i
        · exact ihfound

theorem mem_newPlaces (hnew : Descending new) (hfound : Descending found) :
    j ∈ newPlaces new found ↔ j ∈ new ∧ j ∉ found := by
  induction new generalizing found with
  | nil => simp [newPlaces]
  | cons i new ih =>
    obtain ⟨hbelow, hnew⟩ := List.pairwise_cons.mp hnew
    have hcases (hj : j = i ∨ j ∈ new) : j ≤ i := hj.elim Nat.le_of_eq fun hj => (hbelow j hj).le
    rw [newPlaces, List.mem_cons]
    -- Both lists descend and are walked side by side, hence a second induction on what was found.
    induction found with
    | nil => simp [newPlace, ih hnew .nil]
    | cons k found ihfound =>
      obtain ⟨hunder, hfound'⟩ := List.pairwise_cons.mp hfound
      unfold newPlace
      split
      · next heq =>
        obtain rfl : i = k := by simpa using heq
        rw [ih hnew hfound', List.mem_cons, not_or]
        constructor
        · exact fun ⟨hj, hout⟩ => ⟨.inr hj, Nat.ne_of_lt (hbelow j hj), hout⟩
        · exact fun ⟨hj, hne, hout⟩ => ⟨hj.resolve_left hne, hout⟩
      · split
        · next hlt =>
          have hi : i ∉ k :: found := by
            rw [List.mem_cons, not_or]
            exact ⟨Nat.ne_of_gt hlt, fun hi => absurd (hunder i hi) (Nat.lt_asymm hlt)⟩
          rw [List.mem_cons, ih hnew hfound]
          constructor
          · rintro (rfl | ⟨hj, hout⟩)
            · exact ⟨.inl rfl, hi⟩
            · exact ⟨.inr hj, hout⟩
          · exact fun ⟨hj, hout⟩ => hj.imp_right fun hj => ⟨hj, hout⟩
        · next hne hge =>
          refine (ihfound hfound').trans ?_
          rw [List.mem_cons, not_or]
          have hlt : i < k := by
            have hne : i ≠ k := by simpa using hne
            omega
          constructor
          · exact fun ⟨hj, hout⟩ => ⟨hj, Nat.ne_of_lt ((hcases hj).trans_lt hlt), hout⟩
          · exact fun ⟨hj, _, hout⟩ => ⟨hj, hout⟩

theorem length_le_of_descending (hfound : Descending found) (hbound : ∀ i ∈ found, i ≤ n) :
    found.length ≤ n + 1 := by
  have hnodup : found.Nodup := hfound.imp Nat.ne_of_gt
  have hsub : found ⊆ List.range (n + 1) := fun i hi =>
    List.mem_range.mpr (Nat.lt_succ_of_le (hbound i hi))
  simpa using (hnodup.subperm hsub).length_le

theorem length_lt_mergePlaces {k : Nat} (hfound : Descending found) (hk : k ∈ new) (hout : k ∉ found) :
    found.length < (mergePlaces new found).length := by
  have hnodup : (k :: found).Nodup := List.nodup_cons.mpr ⟨hout, hfound.imp Nat.ne_of_gt⟩
  refine (hnodup.subperm fun i hi => (mem_mergePlaces _ _).mpr ?_).length_le
  rcases List.mem_cons.mp hi with rfl | hi
  · exact .inl hk
  · exact .inr hi

/-- A step that leads from places to all places that one relation leads to. -/
structure Leads (n : Nat) (step : List Nat → List Nat) (reach : Nat → Nat → Prop) : Prop where
  bound : ∀ i j, i ≤ n → reach i j → j ≤ n
  mem : ∀ l, Descending l → (∀ i ∈ l, i ≤ n) → ∀ j, j ∈ step l ↔ ∃ i ∈ l, reach i j
  descending : ∀ l, Descending l → (∀ i ∈ l, i ≤ n) → Descending (step l)

/-- What a repetition finds. Every round that does not end it finds one place more, and there are
only so many. -/
theorem closePlaces_found {step : List Nat → List Nat} {reach : Nat → Nat → Prop}
    (hstep : Leads n step reach) (hpos : 0 < fuel) (hfuel : found = [] ∨ n + 2 ≤ fuel + found.length)
    (hfound : Descending found) (hbound : ∀ i ∈ found, i ≤ n) (hlast : Descending last)
    (hsub : last ⊆ found) (hdone : ∀ i ∈ found, i ∉ last → ∀ j, reach i j → j ∈ found) :
    Descending (closePlaces step fuel last found) ∧
      ∀ j, j ∈ closePlaces step fuel last found ↔ ∃ i ∈ found, Relation.ReflTransGen reach i j := by
  induction fuel generalizing last found with
  | zero => exact absurd hpos (Nat.lt_irrefl 0)
  | succ fuel ih =>
    have hlastBound : ∀ i ∈ last, i ≤ n := fun i hi => hbound i (hsub hi)
    have hnew (j : Nat) : j ∈ newPlaces (step last) found ↔ (∃ i ∈ last, reach i j) ∧ j ∉ found := by
      rw [mem_newPlaces (hstep.descending last hlast hlastBound) hfound, hstep.mem last hlast hlastBound]
    have hdescending : Descending (newPlaces (step last) found) :=
      (hstep.descending last hlast hlastBound).sublist (newPlaces_sublist _ _)
    rw [closePlaces]
    split
    · next hempty =>
      -- nothing new was found, so what was found is closed under the relation
      have hclosed : ∀ i ∈ found, ∀ j, reach i j → j ∈ found := by
        intro i hi j hij
        by_cases hin : i ∈ last
        · by_contra hout
          have hmem := (hnew j).mpr ⟨⟨i, hin, hij⟩, hout⟩
          rw [List.isEmpty_iff.mp hempty] at hmem
          cases hmem
        · exact hdone i hi hin j hij
      refine ⟨hfound, fun j => ⟨fun hj => ⟨j, hj, .refl⟩, ?_⟩⟩
      rintro ⟨i, hi, hij⟩
      induction hij with
      | refl => exact hi
      | tail _ hto hmem => exact hclosed _ hmem _ hto
    · next hsome =>
      obtain ⟨k, hk⟩ := List.exists_mem_of_ne_nil _ (fun h => hsome (List.isEmpty_iff.mpr h))
      obtain ⟨⟨i, hi, _⟩, hout⟩ := (hnew k).mp hk
      have hfuel := hfuel.resolve_left (List.ne_nil_of_mem (hsub hi))
      have hmerged (j : Nat) := mem_mergePlaces (j := j) (newPlaces (step last) found) found
      have hmore := descending_mergePlaces hdescending hfound
      have hbound' : ∀ i ∈ mergePlaces (newPlaces (step last) found) found, i ≤ n := by
        intro i hi
        rcases (hmerged i).mp hi with hi | hi
        · obtain ⟨⟨i', hi', hto⟩, _⟩ := (hnew i).mp hi
          exact hstep.bound i' i (hlastBound i' hi') hto
        · exact hbound i hi
      have hlength := length_lt_mergePlaces hfound hk hout
      have hroom := length_le_of_descending hmore hbound'
      have hdone' : ∀ i ∈ mergePlaces (newPlaces (step last) found) found,
          i ∉ newPlaces (step last) found →
            ∀ j, reach i j → j ∈ mergePlaces (newPlaces (step last) found) found := by
        intro i hi hout j hij
        have hi : i ∈ found := ((hmerged i).mp hi).resolve_left hout
        rw [hmerged]
        by_cases hj : j ∈ found
        · exact .inr hj
        · by_cases hin : i ∈ last
          · exact .inl ((hnew j).mpr ⟨⟨i, hin, hij⟩, hj⟩)
          · exact .inr (hdone i hi hin j hij)
      obtain ⟨hdesc, hmem⟩ := ih (by omega) (.inr (by omega)) hmore hbound' hdescending
        (fun i hi => (hmerged i).mpr (.inl hi)) hdone'
      refine ⟨hdesc, fun j => (hmem j).trans ⟨?_, ?_⟩⟩
      · rintro ⟨i, hi, hij⟩
        rcases (hmerged i).mp hi with hi | hi
        · obtain ⟨⟨i', hi', hto⟩, _⟩ := (hnew i).mp hi
          exact ⟨i', hsub hi', .head hto hij⟩
        · exact ⟨i, hi, hij⟩
      · exact fun ⟨i, hi, hij⟩ => ⟨i, (hmerged i).mpr (.inr hi), hij⟩

/-- A word of the expression leads from one place of the text to the other. -/
def Regex.Spans (r : Regex) (cs : List Char) (i j : Nat) : Prop :=
  ∃ w, r.Matches w ∧ w <+: cs.drop i ∧ j = i + w.length

namespace Regex

variable {cs u v w : List Char}

theorem append_prefix_drop (u w : List Char) :
    u ++ w <+: cs.drop i ↔ u <+: cs.drop i ∧ w <+: cs.drop (i + u.length) := by
  constructor
  · rintro ⟨t, ht⟩
    refine ⟨⟨w ++ t, by rw [← ht, List.append_assoc]⟩, ⟨t, ?_⟩⟩
    rw [← List.drop_drop, ← ht, List.append_assoc, List.drop_left]
  · rintro ⟨⟨t, ht⟩, hw⟩
    rw [← List.drop_drop, ← ht, List.drop_left] at hw
    rw [← ht]
    exact (List.prefix_append_right_inj u).mpr hw

theorem Spans.le (h : r.Spans cs i j) (hi : i ≤ cs.length) : j ≤ cs.length := by
  obtain ⟨w, _, hw, rfl⟩ := h
  have := hw.length_le
  rw [List.length_drop] at this
  omega

theorem spans_seq : (seq a b).Spans cs i j ↔ ∃ k, a.Spans cs i k ∧ b.Spans cs k j := by
  constructor
  · rintro ⟨_, hm, hw, rfl⟩
    cases hm with
    | @seq _ _ u v hu hv =>
      obtain ⟨hfirst, hsecond⟩ := (append_prefix_drop u v).mp hw
      exact ⟨_, ⟨u, hu, hfirst, rfl⟩, ⟨v, hv, hsecond, by rw [List.length_append, Nat.add_assoc]⟩⟩
  · rintro ⟨_, ⟨u, hu, hfirst, rfl⟩, ⟨v, hv, hsecond, rfl⟩⟩
    exact ⟨u ++ v, .seq hu hv, (append_prefix_drop u v).mpr ⟨hfirst, hsecond⟩,
      by rw [List.length_append, Nat.add_assoc]⟩

theorem spans_alt : (alt a b).Spans cs i j ↔ a.Spans cs i j ∨ b.Spans cs i j := by
  constructor
  · rintro ⟨w, hm, hw, rfl⟩
    cases hm with
    | altLeft h => exact .inl ⟨w, h, hw, rfl⟩
    | altRight h => exact .inr ⟨w, h, hw, rfl⟩
  · rintro (⟨w, hm, hw, rfl⟩ | ⟨w, hm, hw, rfl⟩)
    · exact ⟨w, .altLeft hm, hw, rfl⟩
    · exact ⟨w, .altRight hm, hw, rfl⟩

theorem spans_star : (star a).Spans cs i j ↔ Relation.ReflTransGen (a.Spans cs) i j := by
  constructor
  · rintro ⟨w, hm, hw, rfl⟩
    generalize hstar : star a = r at hm
    induction hm generalizing i with
    | starNil => exact .refl
    | @starCons a' u v hu hv _ ih =>
      cases hstar
      obtain ⟨hfirst, hsecond⟩ := (append_prefix_drop u v).mp hw
      rw [List.length_append, ← Nat.add_assoc]
      exact .head ⟨u, hu, hfirst, rfl⟩ (ih hsecond rfl)
    | _ => cases hstar
  · intro h
    induction h using Relation.ReflTransGen.head_induction_on with
    | refl => exact ⟨[], .starNil, List.nil_prefix, rfl⟩
    | head hstep _ ih =>
      obtain ⟨u, hu, hfirst, rfl⟩ := hstep
      obtain ⟨v, hv, hsecond, rfl⟩ := ih
      exact ⟨u ++ v, .starCons hu hv, (append_prefix_drop u v).mpr ⟨hfirst, hsecond⟩,
        by rw [List.length_append, Nat.add_assoc]⟩

theorem leads_stepPlaces (text : Array Char) {p : Char → Bool}
    (h : ∀ w, r.Matches w ↔ ∃ c, p c = true ∧ w = [c]) :
    Leads text.size (stepPlaces text p) (r.Spans text.toList) := by
  have hspans (i j : Nat) : r.Spans text.toList i j ↔ ∃ c, text[i]? = some c ∧ p c = true ∧ j = i + 1 := by
    constructor
    · rintro ⟨w, hm, hw, rfl⟩
      obtain ⟨c, hc, rfl⟩ := (h w).mp hm
      obtain ⟨t, ht⟩ := hw
      refine ⟨c, ?_, hc, rfl⟩
      rw [← Array.getElem?_toList, ← List.head?_drop, ← ht]
      rfl
    · rintro ⟨c, hget, hc, rfl⟩
      refine ⟨[c], (h _).mpr ⟨c, hc, rfl⟩, ?_, rfl⟩
      rw [← Array.getElem?_toList, ← List.head?_drop] at hget
      obtain ⟨t, ht⟩ := List.head?_eq_some_iff.mp hget
      exact ⟨t, ht.symm⟩
  have hmem (l : List Nat) (j : Nat) :
      j ∈ stepPlaces text p l ↔ ∃ i ∈ l, r.Spans text.toList i j := by
    simp only [stepPlaces, List.mem_filterMap, hspans, Option.bind_eq_some_iff]
    constructor
    · rintro ⟨i, hi, c, hget, hj⟩
      split at hj
      · next hc => exact ⟨i, hi, c, hget, hc, (Option.some.inj hj).symm⟩
      · cases hj
    · rintro ⟨i, hi, c, hget, hc, rfl⟩
      exact ⟨i, hi, c, hget, by rw [if_pos hc]⟩
  refine ⟨fun i j hi hij => ?_, fun l _ _ => hmem l, fun l hl _ => ?_⟩
  · simpa using hij.le (by simpa using hi)
  · refine hl.filterMap _ fun i k hik j hj j' hj' => ?_
    obtain ⟨c, _, hc⟩ := Option.bind_eq_some_iff.mp hj
    obtain ⟨c', _, hc'⟩ := Option.bind_eq_some_iff.mp hj'
    split at hc <;> cases hc
    split at hc' <;> cases hc'
    exact Nat.succ_lt_succ hik

/-- The places that are found are those to which a word leads. -/
theorem leads_ends (text : Array Char) (r : Regex) :
    Leads text.size (r.ends text) (r.Spans text.toList) := by
  have hbound (r : Regex) (i j : Nat) (hi : i ≤ text.size) (hij : r.Spans text.toList i j) :
      j ≤ text.size := by simpa using hij.le (by simpa using hi)
  induction r with
  | empty =>
    have hspans (i j : Nat) : Regex.empty.Spans text.toList i j ↔ j = i := by
      constructor
      · rintro ⟨_, hm, _, rfl⟩
        cases hm
        rfl
      · rintro rfl
        exact ⟨[], .empty, List.nil_prefix, rfl⟩
    exact ⟨hbound _, fun l _ _ j => by simp [ends, hspans], fun l hl _ => hl⟩
  | char c =>
    refine leads_stepPlaces text fun w => ?_
    constructor
    · rintro ⟨⟩
      exact ⟨c, by simp, rfl⟩
    · rintro ⟨c', hc', rfl⟩
      obtain rfl : c' = c := by simpa using hc'
      exact .char c'
  | any =>
    refine leads_stepPlaces text fun w => ?_
    constructor
    · rintro ⟨⟩
      exact ⟨_, by simpa using ‹_ ≠ '\n'›, rfl⟩
    · rintro ⟨c, hc, rfl⟩
      exact .any c (by simpa using hc)
  | oneOf k =>
    refine leads_stepPlaces text fun w => ?_
    constructor
    · rintro ⟨⟩
      exact ⟨_, ‹_›, rfl⟩
    · rintro ⟨c, hc, rfl⟩
      exact .oneOf k c hc
  | seq a b iha ihb =>
    have hmiddle (l : List Nat) (hl : Descending l) (hle : ∀ i ∈ l, i ≤ text.size) :
        ∀ i ∈ a.ends text l, i ≤ text.size := by
      intro i hi
      obtain ⟨i', hi', hspans⟩ := (iha.mem l hl hle i).mp hi
      exact hbound a i' i (hle i' hi') hspans
    refine ⟨hbound _, fun l hl hle j => ?_, fun l hl hle => ?_⟩
    · rw [ends, ihb.mem _ (iha.descending l hl hle) (hmiddle l hl hle)]
      constructor
      · rintro ⟨k, hk, hkj⟩
        obtain ⟨i, hi, hik⟩ := (iha.mem l hl hle k).mp hk
        exact ⟨i, hi, spans_seq.mpr ⟨k, hik, hkj⟩⟩
      · rintro ⟨i, hi, hij⟩
        obtain ⟨k, hik, hkj⟩ := spans_seq.mp hij
        exact ⟨k, (iha.mem l hl hle k).mpr ⟨i, hi, hik⟩, hkj⟩
    · exact ihb.descending _ (iha.descending l hl hle) (hmiddle l hl hle)
  | alt a b iha ihb =>
    refine ⟨hbound _, fun l hl hle j => ?_, fun l hl hle => ?_⟩
    · rw [ends, mem_mergePlaces, iha.mem l hl hle, ihb.mem l hl hle]
      simp only [spans_alt, ← exists_or, and_or_left]
    · exact descending_mergePlaces (iha.descending l hl hle) (ihb.descending l hl hle)
  | star a iha =>
    have hclose (l : List Nat) (hl : Descending l) (hle : ∀ i ∈ l, i ≤ text.size) :=
      closePlaces_found iha (Nat.succ_pos text.size)
        (by
          cases l with
          | nil => exact .inl rfl
          | cons i rest => exact .inr (by rw [List.length_cons]; omega))
        hl hle hl (List.Subset.refl l) fun i hi hout => absurd hi hout
    refine ⟨hbound _, fun l hl hle j => ?_, fun l hl hle => (hclose l hl hle).1⟩
    rw [ends, (hclose l hl hle).2]
    simp only [spans_star]

theorem accepts_iff (r : Regex) (cs : List Char) : r.accepts cs = true ↔ r.Matches cs := by
  rw [accepts, List.contains_iff_mem,
    (leads_ends cs.toArray r).mem [0] (by simp) (by simp) cs.length]
  simp only [List.mem_singleton, exists_eq_left, Spans, Nat.zero_add, List.drop_zero]
  constructor
  · rintro ⟨w, hm, hw, hlength⟩
    rwa [← hw.eq_of_length hlength.symm]
  · exact fun h => ⟨cs, h, List.prefix_refl cs, rfl⟩

end Regex
end JudgedLint.Pattern
