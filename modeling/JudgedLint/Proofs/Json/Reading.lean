import JudgedLint.Json.Reader
import JudgedLint.Proofs.Except
import JudgedLint.Proofs.Json.Members
import JudgedLint.Proofs.Text.Numeral

/-! What a reader of JSON can give: no object has two members with one key, and whole numbers are no
longer than the reader's limit. -/
namespace JudgedLint.Json

/-- A value as readers give it, whose whole numbers have at most so many digits. -/
inductive Proper (digits : Nat) : Json → Prop where
  | null : Proper digits .null
  | bool (b : Bool) : Proper digits (.bool b)
  | int {n : Int} (h : (Nat.toDigits 10 n.natAbs).length ≤ digits) : Proper digits (.int n)
  | float (x : Float) : Proper digits (.float x)
  | str (s : String) : Proper digits (.str s)
  | arr {items : List Json} (h : ∀ v ∈ items, Proper digits v) : Proper digits (.arr items)
  | obj {ms : List (String × Json)} (hd : Distinct ms) (h : ∀ m ∈ ms, Proper digits m.2) :
      Proper digits (.obj ms)

/-- A whole number that is not too long to be read back. -/
def IsShort (n : Int) : Prop := (Nat.toDigits 10 n.natAbs).length ≤ Limits.general.digits

theorem isShort_of_lt {n : Int} {k : Nat} (hk : 0 < k) (hle : k ≤ Limits.general.digits)
    (h : n.natAbs < 10 ^ k) : IsShort n :=
  Nat.le_trans ((Nat.length_toDigits_le_iff (by decide) hk).mpr h) hle

theorem isShort_of_lt_two_pow {n : Int} {k : Nat} (hk : 0 < k) (hle : k ≤ Limits.general.digits)
    (h : n.natAbs < 2 ^ k) : IsShort n :=
  isShort_of_lt hk hle (Nat.lt_of_lt_of_le h (Nat.pow_le_pow_left (by decide) k))

variable {l : Limits} {fuel depth : Nat} {cs rest : List Char} {v : Json}

theorem length_le_of_not_isExceeded {negative : Bool} {n : Nat}
    (h : ¬l.isExceeded negative true n = true) : n ≤ l.digits := by
  simp only [Limits.isExceeded, Bool.true_and] at h
  split at h
  · simp only [decide_eq_true_eq] at h
    omega
  · simpa using h

theorem number_proper {negative : Bool} {here : List Char}
    (h : number l negative here cs = .ok (v, rest)) : v.Proper l.digits := by
  simp only [number] at h
  split at h
  · cases h
  · next n hn =>
    split at h
    · cases h
    · next hlimit =>
      split at h
      · next hwhole =>
        cases h
        rw [hwhole] at hlimit
        refine .int (Nat.le_trans ?_ (length_le_of_not_isExceeded hlimit))
        split
        · simpa using Text.length_toDigits_le hn
        · simpa using Text.length_toDigits_le hn
      · cases h
        exact .float _

theorem words_proper {w : String × Json} (h : w ∈ words) (digits : Nat) : w.2.Proper digits := by
  simp only [words, List.mem_cons, List.not_mem_nil, or_false] at h
  rcases h with rfl | rfl | rfl | rfl | rfl | rfl
  · exact .null
  · exact .bool true
  · exact .bool false
  · exact .float _
  · exact .float _
  · exact .float _

theorem scalar_proper (h : scalar l fuel cs = .ok (v, rest)) : v.Proper l.digits := by
  simp only [scalar] at h
  split at h
  · next found hword =>
    cases h
    obtain ⟨w, hw, hfound⟩ := List.exists_of_findSome?_eq_some hword
    obtain ⟨_, _, heq⟩ := Option.map_eq_some_iff.mp hfound
    cases heq
    exact words_proper hw _
  · split at h
    · obtain ⟨text, _, h⟩ := bind_eq_ok.mp h
      cases pure_eq_ok.mp h
      exact .str _
    · exact number_proper h
    · exact number_proper h

def ValuesProper (l : Limits) (fuel : Nat) : Prop := ∀ {depth cs v rest},
  value l fuel depth cs = .ok (v, rest) → v.Proper l.digits

def ItemsProper (l : Limits) (fuel : Nat) : Prop := ∀ {depth cs vs rest},
  itemList l fuel depth cs = .ok (vs, rest) → ∀ v ∈ vs, v.Proper l.digits

def MembersProper (l : Limits) (fuel : Nat) : Prop := ∀ {depth cs ms rest},
  memberList l fuel depth cs = .ok (ms, rest) → ∀ m ∈ ms, m.2.Proper l.digits

theorem valuesProper_succ (hitems : ItemsProper l fuel) (hmembers : MembersProper l fuel) :
    ValuesProper l (fuel + 1) := by
  intro depth cs v rest h
  simp only [value] at h
  split at h
  · split at h
    · cases h
    · split at h
      · cases h
        exact .arr (by simp)
      · obtain ⟨⟨vs, behind⟩, hvs, h⟩ := bind_eq_ok.mp h
        cases pure_eq_ok.mp h
        exact .arr (hitems hvs)
  · split at h
    · cases h
    · split at h
      · cases h
        exact .obj List.nodup_nil (by simp)
      · obtain ⟨⟨ms, behind⟩, hms, h⟩ := bind_eq_ok.mp h
        cases pure_eq_ok.mp h
        exact .obj (distinct_members ms) fun m hm => hmembers hms m (mem_of_mem_members hm)
  · exact scalar_proper h

theorem itemsProper_succ (hvalue : ValuesProper l fuel) (hitems : ItemsProper l fuel) :
    ItemsProper l (fuel + 1) := by
  intro depth cs vs rest h
  simp only [itemList] at h
  obtain ⟨⟨v, behind⟩, hv, h⟩ := bind_eq_ok.mp h
  simp only at h
  split at h
  · cases pure_eq_ok.mp h
    intro w hw
    obtain rfl := List.mem_singleton.mp hw
    exact hvalue hv
  · obtain ⟨⟨more, behind'⟩, hmore, h⟩ := bind_eq_ok.mp h
    cases pure_eq_ok.mp h
    intro w hw
    rcases List.mem_cons.mp hw with rfl | hw
    · exact hvalue hv
    · exact hitems hmore w hw
  · cases h

theorem membersProper_succ (hvalue : ValuesProper l fuel) (hmembers : MembersProper l fuel) :
    MembersProper l (fuel + 1) := by
  intro depth cs ms rest h
  simp only [memberList] at h
  split at h
  · obtain ⟨⟨text, behind⟩, _, h⟩ := bind_eq_ok.mp h
    simp only at h
    split at h
    · obtain ⟨⟨v, behind'⟩, hv, h⟩ := bind_eq_ok.mp h
      simp only at h
      split at h
      · cases pure_eq_ok.mp h
        intro m hm
        obtain rfl := List.mem_singleton.mp hm
        exact hvalue hv
      · obtain ⟨⟨more, behind''⟩, hmore, h⟩ := bind_eq_ok.mp h
        cases pure_eq_ok.mp h
        intro m hm
        rcases List.mem_cons.mp hm with rfl | hm
        · exact hvalue hv
        · exact hmembers hmore m hm
      · cases h
    · cases h
  · cases h

theorem reads_proper (l : Limits) (fuel : Nat) :
    ValuesProper l fuel ∧ ItemsProper l fuel ∧ MembersProper l fuel := by
  induction fuel with
  | zero =>
    refine ⟨?_, ?_, ?_⟩
    · intro depth cs v rest h
      simp [value] at h
    · intro depth cs vs rest h
      simp [itemList] at h
    · intro depth cs ms rest h
      simp [memberList] at h
  | succ fuel ih =>
    obtain ⟨hvalue, hitems, hmembers⟩ := ih
    exact ⟨valuesProper_succ hitems hmembers, itemsProper_succ hvalue hitems,
      membersProper_succ hvalue hmembers⟩

theorem parse_proper {s : String} (h : parse l s = .ok v) : v.Proper l.digits := by
  rw [parse, mapError_eq_ok] at h
  simp only [document] at h
  split at h
  · cases h
  · obtain ⟨⟨w, behind⟩, hw, h⟩ := bind_eq_ok.mp h
    simp only at h
    split at h
    · cases pure_eq_ok.mp h
      exact (reads_proper l _).1 hw
    · cases h

end JudgedLint.Json
