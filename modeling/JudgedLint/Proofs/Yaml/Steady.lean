import JudgedLint.Proofs.Yaml.Building
import JudgedLint.Proofs.Yaml.Distinct

/-! Data that survive being written and read: nothing, truth values, whole numbers, texts that keep
their line ends, and lists and mappings of such data. -/
namespace JudgedLint.Yaml

variable {n : Nat} {d : Datum} {s : String} {items : List Datum} {entries : List (Datum × Datum)}

/-- A text without the control character for a next line. Between single quotes that character is
written as it is and read as a line end like any other. -/
def KeepsLines (s : String) : Prop := ∀ c ∈ s.toList, c.toNat ≠ 0x85

instance (s : String) : Decidable (KeepsLines s) :=
  List.decidableBAll (fun c : Char => c.toNat ≠ 0x85) s.toList

/-- Data without byte strings, fractions, days, sets and labels, whose texts keep their line ends. -/
inductive Steady : Datum → Prop
  | null : Steady .null
  | bool (b : Bool) : Steady (.bool b)
  | int (n : Int) : Steady (.int n)
  | str {s : String} (h : KeepsLines s) : Steady (.str s)
  | list {items : List Datum} (h : ∀ d ∈ items, Steady d) : Steady (.list items)
  | map {entries : List (Datum × Datum)} (keys : ∀ e ∈ entries, Steady e.1)
      (values : ∀ e ∈ entries, Steady e.2) : Steady (.map entries)

theorem Steady.bare (h : Steady d) : d.bare = d := by
  cases h <;> rfl

theorem Steady.of_isMap (h : Steady d) (hmap : d.isMap = true) : ∃ entries, d = .map entries ∧
    ∀ e ∈ entries, Steady e.1 ∧ Steady e.2 := by
  cases h with
  | map keys values => exact ⟨_, rfl, fun e he => ⟨keys e he, values e he⟩⟩
  | _ => cases hmap

theorem Steady.get? {name : String} {v : Datum} (h : Steady d) (hv : d.get? name = some v) :
    Steady v := by
  obtain ⟨e, he, rfl⟩ := Option.map_eq_some_iff.mp hv
  have hmem := List.mem_of_find?_eq_some he
  rw [Datum.entries, h.bare] at hmem
  cases h with
  | map _ values => exact values e hmem
  | _ => cases hmem

theorem Steady.insert {key value : Datum} (h : Steady (.map entries)) (hkey : Steady key)
    (hvalue : Steady value) : Steady (.map (Datum.insert key value entries)) := by
  obtain ⟨_, heq, hentries⟩ := h.of_isMap rfl
  cases heq
  refine .map (fun e he => ?_) fun e he => ?_
  · have hmem : e.1 ∈ (Datum.insert key value entries).map (·.1) := List.mem_map_of_mem he
    rw [Datum.keys_insert] at hmem
    have hold (h : e.1 ∈ entries.map (·.1)) : Steady e.1 := by
      obtain ⟨old, hold, heq⟩ := List.mem_map.mp h
      rw [← heq]
      exact (hentries old hold).1
    split at hmem
    · exact hold hmem
    · rcases List.mem_append.mp hmem with h | h
      · exact hold h
      · rwa [List.mem_singleton.mp h]
  · rcases Datum.mem_insert he with heq | ⟨old, hold, heq⟩
    · rwa [heq]
    · rw [← heq]
      exact (hentries old hold).2

/-- Values that are written on the line of their key. The whole numbers are those that say how many
calls may be in flight. -/
inductive Brief : Datum → Prop
  | null : Brief .null
  | bool (b : Bool) : Brief (.bool b)
  | int {n : Nat} (h : n ≤ 20) : Brief (.int n)
  | str {s : String} (h : KeepsLines s) : Brief (.str s)
  | emptyList : Brief (.list [])
  | emptyMap : Brief (.map [])

theorem lastingScalar_str (h : KeepsLines s) : LastingScalar (.str s) .str s where
  written := rfl
  reads := rfl
  untagged := .inl rfl
  faithful _ := h

theorem lastingScalar_null : LastingScalar .null .null "null" where
  written := rfl
  reads := rfl
  untagged := .inr (by decide)
  faithful _ := List.all_iff_forall_prop.mp (by decide)

theorem lastingScalar_bool (b : Bool) : LastingScalar (.bool b) .bool (if b then "true" else "false") := by
  refine ⟨rfl, ?_, .inr ?_, fun _ => ?_⟩
  · have hread : truthOf (if b then "true" else "false") = .ok b := by
      cases b <;> decide
    rw [scalarDatum, hread]
    rfl
  · cases b <;> decide
  · refine List.all_iff_forall_prop.mp ?_
    cases b <;> decide

theorem lastingScalar_int (h : n ≤ 20) : LastingScalar (.int n) .int (toString (n : Int)) := by
  have hcases : ∀ m : Fin 21, integerOf (toString ((m : Nat) : Int)) = .ok m ∧
      (toString ((m : Nat) : Int) ≠ "" ∧ Tag.ofPlain (toString ((m : Nat) : Int)) = .int ∧
        (analyze (toString ((m : Nat) : Int)).toList).plain = true) ∧
      ((toString ((m : Nat) : Int)).toList.all fun c => decide (c.toNat ≠ 0x85)) = true := by
    decide
  obtain ⟨hread, huntagged, hkept⟩ := hcases ⟨n, by omega⟩
  refine ⟨rfl, ?_, .inr huntagged, fun _ => List.all_iff_forall_prop.mp hkept⟩
  rw [scalarDatum, hread]
  rfl

theorem Brief.lasting (h : Brief d) (hn : n + 2 < lineWidth) : Lasting n d := by
  cases h with
  | null => exact .scalar lastingScalar_null hn
  | bool b => exact .scalar (lastingScalar_bool b) hn
  | int h => exact .scalar (lastingScalar_int h) hn
  | str h => exact .scalar (lastingScalar_str h) hn
  | emptyList => exact .list nofun
  | emptyMap => exact .map nofun List.nodup_nil nofun

theorem Brief.mentions (h : Brief d) (m : Mentions) : mentions d m = m := by
  cases h with
  | @int n h =>
    have hwritable : ∀ k : Fin 21, Datum.isWritable ((k : Nat) : Int) = true := by decide
    rw [Yaml.mentions, hwritable ⟨n, by omega⟩, Bool.and_true]
  | emptyList => rw [Yaml.mentions, itemMentions]
  | emptyMap => rw [Yaml.mentions, entryMentions]
  | _ =>
    rw [Yaml.mentions]
    all_goals nofun

theorem mentions_str (s : String) (m : Mentions) : mentions (.str s) m = m := by
  rw [mentions]
  all_goals nofun

theorem itemMentions_eq (h : ∀ d ∈ items, ∀ m, mentions d m = m) (m : Mentions) :
    itemMentions items m = m := by
  induction items with
  | nil => rw [itemMentions]
  | cons d rest ih =>
    obtain ⟨hd, hrest⟩ := List.forall_mem_cons.mp h
    rw [itemMentions, hd, ih hrest]

theorem entryMentions_eq (h : ∀ e ∈ entries, (∃ word, e.1 = .str word) ∧ ∀ m, mentions e.2 m = m)
    (m : Mentions) : entryMentions entries m = m := by
  induction entries with
  | nil => rw [entryMentions]
  | cons e rest ih =>
    obtain ⟨⟨⟨word, hword⟩, he⟩, hrest⟩ := List.forall_mem_cons.mp h
    obtain ⟨k, v⟩ := e
    obtain rfl : k = .str word := hword
    rw [entryMentions, mentions_str, he, ih hrest]

end JudgedLint.Yaml
