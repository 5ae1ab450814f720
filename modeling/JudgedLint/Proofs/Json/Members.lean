import JudgedLint.Json.Basic
import Mathlib.Data.List.Nodup

/-! Lists of pairs as maps: what is found under a key after a value was put under one, and after
many were, in whatever order. -/
namespace JudgedLint.Json

variable {α β : Type} {k : String} {v : α} {l l' : List (String × α)}

def Distinct (l : List (String × α)) : Prop := (l.map (·.1)).Nodup

instance (l : List (String × α)) : Decidable (Distinct l) :=
  inferInstanceAs (Decidable (l.map (·.1)).Nodup)

theorem lookup_put_self (k : String) (v : α) (l : List (String × α)) :
    (put k v l).lookup k = some v := by
  induction l with
  | nil => exact List.lookup_cons_self
  | cons e rest ih =>
    obtain ⟨k', v'⟩ := e
    simp only [put]
    split
    · next heq =>
      obtain rfl := beq_iff_eq.mp heq
      exact List.lookup_cons_self
    · next hne =>
      rw [List.lookup_cons, beq_eq_false_iff_ne.mpr fun h => hne (beq_iff_eq.mpr h.symm)]
      exact ih

theorem lookup_put_ne {k' : String} (h : k' ≠ k) (v : α) (l : List (String × α)) :
    (put k v l).lookup k' = l.lookup k' := by
  induction l with
  | nil => rw [put, List.lookup_cons, beq_eq_false_iff_ne.mpr h]
  | cons e rest ih =>
    obtain ⟨n, v'⟩ := e
    simp only [put]
    split
    · next heq =>
      obtain rfl := beq_iff_eq.mp heq
      simp only [List.lookup_cons, beq_eq_false_iff_ne.mpr h]
    · simp only [List.lookup_cons, ih]

theorem mem_keys_put {k' : String} : k' ∈ (put k v l).map (·.1) ↔ k' = k ∨ k' ∈ l.map (·.1) := by
  induction l with
  | nil => simp [put]
  | cons e rest ih =>
    obtain ⟨n, v'⟩ := e
    simp only [put]
    split
    · next heq =>
      obtain rfl := beq_iff_eq.mp heq
      simp
    · simp only [List.map_cons, List.mem_cons, ih]
      tauto

theorem Distinct.put (h : Distinct l) (k : String) (v : α) : Distinct (put k v l) := by
  induction l with
  | nil => simp [Distinct, Json.put]
  | cons e rest ih =>
    obtain ⟨n, v'⟩ := e
    obtain ⟨hnew, hrest⟩ := List.nodup_cons.mp h
    simp only [Json.put]
    split
    · exact h
    · next hne =>
      refine List.nodup_cons.mpr ⟨fun hmem => ?_, ih hrest⟩
      rcases mem_keys_put.mp hmem with rfl | hmem
      · exact hne (beq_self_eq_true _)
      · exact hnew hmem

theorem put_of_new (h : k ∉ l.map (·.1)) : put k v l = l ++ [(k, v)] := by
  induction l with
  | nil => rfl
  | cons e rest ih =>
    obtain ⟨n, v'⟩ := e
    simp only [List.map_cons, List.mem_cons, not_or] at h
    rw [put, if_neg (by simpa using Ne.symm h.1), ih h.2, List.cons_append]

def putAll (new old : List (String × α)) : List (String × α) :=
  new.foldl (fun acc p => put p.1 p.2 acc) old

theorem Distinct.putAll {old : List (String × α)} (h : Distinct old) (new : List (String × α)) :
    Distinct (putAll new old) := by
  induction new generalizing old with
  | nil => exact h
  | cons p rest ih => exact ih (h.put p.1 p.2)

theorem mem_put {p : String × α} (h : p ∈ put k v l) : p = (k, v) ∨ p ∈ l := by
  induction l with
  | nil => exact .inl (List.mem_singleton.mp h)
  | cons e rest ih =>
    obtain ⟨n, v'⟩ := e
    simp only [put] at h
    split at h
    · next heq =>
      obtain rfl := beq_iff_eq.mp heq
      rcases List.mem_cons.mp h with rfl | hmem
      · exact .inl rfl
      · exact .inr (List.mem_cons_of_mem _ hmem)
    · rcases List.mem_cons.mp h with rfl | hmem
      · exact .inr List.mem_cons_self
      · exact (ih hmem).imp_right (List.mem_cons_of_mem _)

theorem mem_putAll {p : String × α} {new old : List (String × α)} (h : p ∈ putAll new old) :
    p ∈ new ∨ p ∈ old := by
  induction new generalizing old with
  | nil => exact .inr h
  | cons q rest ih =>
    rcases ih h with hmem | hmem
    · exact .inl (List.mem_cons_of_mem _ hmem)
    · rcases mem_put hmem with rfl | hmem
      · exact .inl List.mem_cons_self
      · exact .inr hmem

theorem mem_of_mem_members {p : String × α} (h : p ∈ members l) : p ∈ l := by
  rcases mem_putAll h with hmem | hmem
  · exact hmem
  · cases hmem

theorem distinct_members (l : List (String × α)) : Distinct (members l) := by
  have hempty : Distinct ([] : List (String × α)) := List.nodup_nil
  exact hempty.putAll l

theorem putAll_of_new {old : List (String × α)} (h : Distinct (old ++ l)) :
    putAll l old = old ++ l := by
  induction l generalizing old with
  | nil => exact (List.append_nil old).symm
  | cons p rest ih =>
    have hnew : p.1 ∉ old.map (·.1) := by
      intro hmem
      rw [Distinct, List.map_append] at h
      exact (List.disjoint_of_nodup_append h) hmem (by simp)
    have hput : put p.1 p.2 old = old ++ [p] := put_of_new hnew
    rw [putAll, List.foldl_cons, hput]
    have hcons : old ++ [p] ++ rest = old ++ p :: rest := by simp
    rw [← hcons] at h ⊢
    exact ih h

theorem members_of_distinct (h : Distinct l) : members l = l :=
  putAll_of_new (h : Distinct ([] ++ l))

theorem mem_of_lookup (h : l.lookup k = some v) : (k, v) ∈ l := by
  obtain ⟨before, after, rfl, _⟩ := List.lookup_eq_some_iff.mp h
  simp

theorem lookup_of_notMem (h : k ∉ l.map (·.1)) : l.lookup k = none := by
  cases hl : l.lookup k with
  | none => rfl
  | some v => exact absurd (List.mem_map.mpr ⟨_, mem_of_lookup hl, rfl⟩) h

/-- With distinct keys each value that is put is found, and so is each other one of before. -/
theorem lookup_putAll {new old : List (String × α)} (h : Distinct new) (k : String) :
    (putAll new old).lookup k = (new.lookup k).or (old.lookup k) := by
  induction new generalizing old with
  | nil => rfl
  | cons p rest ih =>
    obtain ⟨n, v⟩ := p
    obtain ⟨hnew, hrest⟩ := List.nodup_cons.mp h
    have hih : (putAll rest (put n v old)).lookup k = (rest.lookup k).or ((put n v old).lookup k) :=
      ih hrest
    rw [putAll, List.foldl_cons]
    refine hih.trans ?_
    rcases eq_or_ne k n with rfl | hne
    · rw [lookup_of_notMem hnew, lookup_put_self, List.lookup_cons_self]
      rfl
    · rw [lookup_put_ne hne, List.lookup_cons, beq_eq_false_iff_ne.mpr hne]

theorem lookup_of_mem (hd : Distinct l) (h : (k, v) ∈ l) : l.lookup k = some v := by
  induction l with
  | nil => cases h
  | cons p rest ih =>
    obtain ⟨n, v'⟩ := p
    obtain ⟨hnew, hrest⟩ := List.nodup_cons.mp hd
    rcases List.mem_cons.mp h with heq | hmem
    · cases heq
      exact List.lookup_cons_self
    · have hne : k ≠ n := by
        rintro rfl
        exact hnew (List.mem_map.mpr ⟨_, hmem, rfl⟩)
      rw [List.lookup_cons, beq_eq_false_iff_ne.mpr hne]
      exact ih hrest hmem

theorem Distinct.nodup (h : Distinct l) : l.Nodup := List.Nodup.of_map _ h

theorem perm_of_lookup (h : Distinct l) (h' : Distinct l')
    (heq : ∀ k, l.lookup k = l'.lookup k) : l.Perm l' := by
  rw [List.perm_ext_iff_of_nodup h.nodup h'.nodup]
  rintro ⟨k, v⟩
  constructor
  · intro hmem
    exact mem_of_lookup ((heq k).symm.trans (lookup_of_mem h hmem))
  · intro hmem
    exact mem_of_lookup ((heq k).trans (lookup_of_mem h' hmem))

theorem lookup_of_perm (h : Distinct l) (hp : l.Perm l') (k : String) :
    l.lookup k = l'.lookup k := by
  have h' : Distinct l' := (hp.map _).nodup_iff.mp h
  cases hl : l.lookup k with
  | some v => exact (lookup_of_mem h' (hp.mem_iff.mp (mem_of_lookup hl))).symm
  | none =>
    cases hl' : l'.lookup k with
    | none => rfl
    | some v =>
      rw [lookup_of_mem h (hp.mem_iff.mpr (mem_of_lookup hl'))] at hl
      cases hl

theorem Distinct.map (h : Distinct l) (f : α → β) : Distinct (l.map fun p => (p.1, f p.2)) := by
  rw [Distinct, List.map_map]
  exact h

theorem put_map (f : α → β) (k : String) (v : α) (l : List (String × α)) :
    put k (f v) (l.map fun p => (p.1, f p.2)) = (put k v l).map fun p => (p.1, f p.2) := by
  induction l with
  | nil => rfl
  | cons p rest ih =>
    obtain ⟨n, v'⟩ := p
    simp only [List.map_cons, put]
    split
    · rfl
    · rw [ih]
      rfl

theorem putAll_map (f : α → β) (new old : List (String × α)) :
    putAll (new.map fun p => (p.1, f p.2)) (old.map fun p => (p.1, f p.2)) =
      (putAll new old).map fun p => (p.1, f p.2) := by
  induction new generalizing old with
  | nil => rfl
  | cons p rest ih =>
    simp only [putAll, List.map_cons, List.foldl_cons, put_map]
    exact ih _

theorem members_map (f : α → β) (l : List (String × α)) :
    members (l.map fun p => (p.1, f p.2)) = (members l).map fun p => (p.1, f p.2) :=
  putAll_map f l []

theorem members_append (l l' : List (String × α)) : members (l ++ l') = putAll l' (members l) :=
  List.foldl_append

/-- A value that is put under a key that is there takes the place of the one before. -/
theorem put_of_mem (hd : Distinct l) (h : k ∈ l.map (·.1)) (v : α) :
    put k v l = l.map fun p => (p.1, if p.1 = k then v else p.2) := by
  induction l with
  | nil => cases h
  | cons p rest ih =>
    obtain ⟨n, v'⟩ := p
    obtain ⟨hnew, hrest⟩ := List.nodup_cons.mp hd
    rw [put, List.map_cons]
    rcases eq_or_ne n k with rfl | hne
    · have hsame : rest.map (fun p => (p.1, if p.1 = n then v else p.2)) = rest := by
        refine (List.map_congr_left fun p hp => ?_).trans (List.map_id rest)
        have hne : p.1 ≠ n := by
          rintro rfl
          exact hnew (List.mem_map.mpr ⟨p, hp, rfl⟩)
        rw [if_neg hne, id]
      rw [if_pos (beq_self_eq_true n), hsame, if_pos rfl]
    · rw [if_neg (by simpa using hne), if_neg hne, ih hrest]
      exact (List.mem_cons.mp h).resolve_left hne.symm

/-- Values that are put take the places of those before; the others come behind, in their order. -/
theorem putAll_eq {new old : List (String × α)} (hn : Distinct new) (ho : Distinct old) :
    putAll new old = old.map (fun p => (p.1, (new.lookup p.1).getD p.2)) ++
      new.filter fun p => p.1 ∉ old.map (·.1) := by
  induction new generalizing old with
  | nil => simp [putAll]
  | cons q rest ih =>
    obtain ⟨k, v⟩ := q
    obtain ⟨hnew, hrest⟩ := List.nodup_cons.mp hn
    have hnone := lookup_of_notMem hnew
    have hih := ih hrest (ho.put k v)
    rw [putAll, List.foldl_cons]
    refine hih.trans ?_
    by_cases hk : k ∈ old.map (·.1)
    · rw [put_of_mem ho hk, List.map_map, List.map_map, List.filter_cons, if_neg (by simpa using hk)]
      congr 1
      refine List.map_congr_left fun p _ => ?_
      rcases eq_or_ne p.1 k with heq | hne
      · simp [heq, hnone]
      · simp [List.lookup_cons, beq_eq_false_iff_ne.mpr hne, hne]
    · rw [put_of_new hk, List.filter_cons, if_pos (by simpa using hk), List.map_append,
        List.append_assoc]
      congr 1
      · refine List.map_congr_left fun p hp => ?_
        have hne : p.1 ≠ k := by
          rintro rfl
          exact hk (List.mem_map_of_mem hp)
        simp [List.lookup_cons, beq_eq_false_iff_ne.mpr hne]
      · simp only [List.map_singleton, hnone, Option.getD_none, List.singleton_append]
        congr 1
        refine List.filter_congr fun p hp => ?_
        have hne : p.1 ≠ k := by
          rintro rfl
          exact hnew (List.mem_map.mpr ⟨p, hp, rfl⟩)
        simp [hne]

end JudgedLint.Json
