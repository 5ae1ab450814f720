import JudgedLint.Lint.Run
import JudgedLint.Proofs.Json.Members
import JudgedLint.Proofs.Lint.Judging
import JudgedLint.Proofs.Lint.Planning

/-! Results as they are stored: each under the key of its rule and file, in the place of what was
stored there before, while every other entry stays. Keys tell jobs apart because no rule id holds the
colon that stands behind it. -/
namespace JudgedLint

open Json (Distinct putAll)

namespace Cache

theorem toList_key (ruleId file : String) :
    (key ruleId file).toList = ruleId.toList ++ ':' :: file.toList := by
  simp [key, ToString.toString]

theorem isIdChar_of_isRuleId {id : String} (h : Lint.isRuleId id = true) :
    ∀ c ∈ id.toList, Lint.isIdChar c = true := by
  intro c hc
  rw [Lint.isRuleId] at h
  split at h
  · cases h
  · next first rest heq =>
    obtain ⟨hfirst, hrest⟩ := Bool.and_eq_true_iff.mp h
    rw [heq] at hc
    rcases List.mem_cons.mp hc with rfl | hc
    · rw [Lint.isIdChar, hfirst]
      rfl
    · exact List.all_eq_true.mp hrest c hc

theorem colon_notMem {id : String} (h : Lint.isRuleId id = true) :
    ∀ c ∈ id.toList, (c != ':') = true := by
  intro c hc
  refine bne_iff_ne.mpr ?_
  rintro rfl
  exact absurd (isIdChar_of_isRuleId h _ hc) (by decide)

theorem key_injective {id id' file file' : String} (h : Lint.isRuleId id = true)
    (h' : Lint.isRuleId id' = true) (heq : key id file = key id' file') : id = id' ∧ file = file' := by
  have hlist := congrArg String.toList heq
  rw [toList_key, toList_key] at hlist
  have hid := congrArg (List.takeWhile (· != ':')) hlist
  rw [List.takeWhile_append_of_pos (colon_notMem h), List.takeWhile_append_of_pos (colon_notMem h'),
    List.takeWhile_cons_of_neg (by decide), List.takeWhile_cons_of_neg (by decide), List.append_nil,
    List.append_nil] at hid
  rw [hid, List.append_cancel_left_eq, List.cons.injEq] at hlist
  exact ⟨String.toList_injective hid, String.toList_injective hlist.2⟩

theorem Document.lookup_eq_some {d : Document} {id file fileHash promptHash : String}
    {r : Lint.Result} : d.lookup id file fileHash promptHash = some r ↔
      ∃ e, d.entries.lookup (key id file) = some e ∧ e.fileHash = fileHash ∧
        e.promptHash = promptHash ∧ e.result = r := by
  rw [lookup]
  cases d.entries.lookup (key id file) with
  | none => simp
  | some e => simp [and_assoc]

/-- The entry without the time it was stored at and the time its result took. -/
def Entry.timeless (e : Entry) : Entry := { e with result := e.result.timeless, timestamp := default }

def Document.timeless (d : Document) : Document := ⟨d.entries.map fun e => (e.1, e.2.timeless)⟩

/-- Documents with the same keys, fingerprints and results, in whatever order. -/
def Document.Alike (d d' : Document) : Prop := d.timeless.entries.Perm d'.timeless.entries

/-- Documents that grew out of one: it has changed in the same places, and of the new entries the
same have come behind it, in whatever order. -/
def Document.Branches (new : List (String × Entry)) (d d' : Document) : Prop :=
  ∃ kept added added', d.timeless.entries = kept ++ added ∧ d'.timeless.entries = kept ++ added' ∧
    added.Perm added' ∧ added.Sublist new

theorem Document.Branches.alike {new : List (String × Entry)} {d d' : Document}
    (h : Branches new d d') : d.Alike d' := by
  obtain ⟨kept, added, added', hd, hd', hperm, _⟩ := h
  rw [Alike, hd, hd']
  exact hperm.append_left kept

theorem Document.Alike.unwritable {d d' : Document} (h : d.Alike d') :
    d.unwritable? = none ↔ d'.unwritable? = none := by
  have htexts : ∀ d : Document, d.entries.flatMap (fun e => e.2.texts) =
      d.timeless.entries.flatMap fun e => e.2.texts := by
    intro d
    rw [timeless, List.flatMap_map]
    rfl
  rw [unwritable?, unwritable?, htexts d, htexts d', List.findSome?_eq_none_iff,
    List.findSome?_eq_none_iff]
  have hperm := h.flatMap_right fun e => e.2.texts
  constructor
  · intro hall t ht
    exact hall t (hperm.mem_iff.mpr ht)
  · intro hall t ht
    exact hall t (hperm.mem_iff.mp ht)

end Cache

namespace Lint

def Job.key (j : Job) : String := Cache.key j.rule.id j.file

def Job.entry (j : Job) (r : Result) (timestamp : Calendar.Moment) : Cache.Entry :=
  ⟨j.fileHash, j.promptHash, j.rule.id, r, timestamp⟩

/-- Rules as a configuration holds them: each id is valid and stands once. -/
structure WellNamed (rules : List Rule) : Prop where
  valid : ∀ r ∈ rules, isRuleId r.id = true
  distinct : (rules.map (·.id)).Nodup

theorem mem_pairs {rules : List Rule} {paths : List String} {path : String} {r : Rule}
    (h : (path, r) ∈ pairs rules paths) : r ∈ rules := by
  obtain ⟨_, _, hmem⟩ := List.mem_flatMap.mp h
  obtain ⟨_, hr, heq⟩ := List.mem_map.mp hmem
  cases heq
  exact List.mem_of_mem_filter hr

namespace Run

variable {σ : Type} {g : Setting σ} {store : Cache.Store} {paths : List String} {t : Workspace.Tree}
  {p : Plan}

theorem Planned.rule_mem (hp : Planned g store paths t p) {j : Job} (hj : j ∈ p.jobs) :
    j.rule ∈ g.rules := by
  have hpair : (j.file, j.rule) ∈ Lint.pairs g.rules paths := by
    rw [← hp.pairs]
    exact List.mem_map_of_mem (f := fun j => (j.file, j.rule)) hj
  exact mem_pairs hpair

theorem Planned.isRuleId (hp : Planned g store paths t p) (hw : WellNamed g.rules) {j : Job}
    (hj : j ∈ p.jobs) : isRuleId j.rule.id = true :=
  hw.valid _ (hp.rule_mem hj)

/-- Two jobs of a plan are never stored in one place. -/
theorem Planned.nodup_keys (hp : Planned g store paths t p) (hw : WellNamed g.rules) :
    (p.jobs.map Job.key).Nodup := by
  have hpairs := nodup_pairs paths hw.distinct
  rw [← hp.pairs, List.map_map] at hpairs
  refine (List.nodup_map_iff_inj_on hpairs.of_map).mpr fun j hj j' hj' hkey => ?_
  obtain ⟨hid, hfile⟩ := Cache.key_injective (hp.isRuleId hw hj) (hp.isRuleId hw hj') hkey
  exact List.inj_on_of_nodup_map hpairs hj hj' (Prod.ext hid hfile)

end Run

/-- The entries of judged jobs, stamped in the order in which the results came in. -/
def stamped (stamp : Nat → Calendar.Moment) (stored : Nat) (judged : List (Job × Result)) :
    List (String × Cache.Entry) :=
  (judged.zipIdx (stored + 1)).map fun p => (p.1.1.key, p.1.1.entry p.1.2 (stamp p.2))

variable {stamp : Nat → Calendar.Moment} {stored : Nat} {judged : List (Job × Result)}
  {d : Cache.Document}

theorem storeAll_eq (stamp : Nat → Calendar.Moment) (stored : Nat) (judged : List (Job × Result))
    (d : Cache.Document) :
    Run.storeAll stamp stored judged d = ⟨putAll (stamped stamp stored judged) d.entries⟩ := by
  simp only [Run.storeAll, stamped]
  generalize judged.zipIdx (stored + 1) = numbered
  induction numbered generalizing d with
  | nil => rfl
  | cons p rest ih =>
    rw [List.foldl_cons, ih]
    rfl

theorem stamped_keys : (stamped stamp stored judged).map (·.1) = judged.map (·.1.key) := by
  conv_rhs => rw [← List.zipIdx_map_fst (stored + 1) judged, List.map_map]
  rw [stamped, List.map_map]
  rfl

/-- What storing the results of judged jobs makes of a document. -/
structure Filled (stamp : Nat → Calendar.Moment) (d : Cache.Document) (judged : List (Job × Result))
    (d' : Cache.Document) : Prop where
  stored : ∀ q ∈ judged, ∃ n, d'.entries.lookup q.1.key = some (q.1.entry q.2 (stamp n))
  kept : ∀ k, k ∉ judged.map (·.1.key) → d'.entries.lookup k = d.entries.lookup k
  distinct : Distinct d.entries → Distinct d'.entries

theorem storeAll_filled (hk : (judged.map (·.1.key)).Nodup) (d : Cache.Document) :
    Filled stamp d judged (Run.storeAll stamp stored judged d) := by
  have hdistinct : Distinct (stamped stamp stored judged) := by
    rw [Distinct, stamped_keys]
    exact hk
  rw [storeAll_eq]
  refine ⟨fun q hq => ?_, fun k hnew => ?_, fun h => h.putAll _⟩
  · obtain ⟨i, hi⟩ := List.mem_iff_getElem?.mp hq
    refine ⟨stored + 1 + i, ?_⟩
    have hmem : (q.1.key, q.1.entry q.2 (stamp (stored + 1 + i))) ∈ stamped stamp stored judged :=
      List.mem_map.mpr ⟨_, List.mk_add_mem_zipIdx_iff_getElem?.mpr hi, rfl⟩
    rw [Json.lookup_putAll hdistinct, Json.lookup_of_mem hdistinct hmem]
    rfl
  · rw [Json.lookup_putAll hdistinct]
    have hnone : (stamped stamp stored judged).lookup k = none := by
      cases hl : (stamped stamp stored judged).lookup k with
      | none => rfl
      | some e =>
        refine absurd ?_ hnew
        have hkeys : (stamped stamp stored judged).map (·.1) = judged.map (·.1.key) := stamped_keys
        rw [← hkeys]
        exact List.mem_map.mpr ⟨_, Json.mem_of_lookup hl, rfl⟩
    rw [hnone]
    rfl

theorem Filled.mem_keys {d' : Cache.Document} (h : Filled stamp d judged d') (hd : Distinct d.entries)
    {k : String} : k ∈ d'.entries.map (·.1) ↔ k ∈ judged.map (·.1.key) ∨ k ∈ d.entries.map (·.1) := by
  by_cases hk : k ∈ judged.map (·.1.key)
  · obtain ⟨q, hq, rfl⟩ := List.mem_map.mp hk
    obtain ⟨n, hn⟩ := h.stored q hq
    exact iff_of_true (List.mem_map.mpr ⟨_, Json.mem_of_lookup hn, rfl⟩) (.inl hk)
  · have hkeys : ∀ {l : List (String × Cache.Entry)}, Distinct l →
        (k ∈ l.map (·.1) ↔ ∃ e, l.lookup k = some e) := by
      intro l hl
      constructor
      · intro hmem
        obtain ⟨⟨_, e⟩, he, rfl⟩ := List.mem_map.mp hmem
        exact ⟨e, Json.lookup_of_mem hl he⟩
      · rintro ⟨e, he⟩
        exact List.mem_map.mpr ⟨_, Json.mem_of_lookup he, rfl⟩
    rw [hkeys (h.distinct hd), h.kept k hk, ← hkeys hd]
    exact ⟨.inr, fun hor => hor.resolve_left hk⟩

def fresh (judged : List (Job × Result)) : List (String × Cache.Entry) :=
  judged.map fun q => (q.1.key, (q.1.entry q.2 default).timeless)

theorem storeAll_timeless (stamp : Nat → Calendar.Moment) (stored : Nat) (judged : List (Job × Result))
    (d : Cache.Document) : (Run.storeAll stamp stored judged d).timeless.entries =
      putAll (fresh judged) d.timeless.entries := by
  have hfresh : (stamped stamp stored judged).map (fun e => (e.1, e.2.timeless)) = fresh judged := by
    rw [stamped, List.map_map, fresh]
    conv_rhs => rw [← List.zipIdx_map_fst (stored + 1) judged, List.map_map]
    rfl
  rw [storeAll_eq, Cache.Document.timeless, ← hfresh]
  exact (Json.putAll_map Cache.Entry.timeless _ _).symm

theorem fresh_keys : (fresh judged).map (·.1) = judged.map (·.1.key) := by
  rw [fresh, List.map_map]
  rfl

/-- The same results, apart from the times they took, in whatever order. -/
def SameResults (judged judged' : List (Job × Result)) : Prop :=
  (judged.map fun q => (q.1, q.2.timeless)).Perm (judged'.map fun q => (q.1, q.2.timeless))

theorem fresh_perm {judged' : List (Job × Result)} (h : SameResults judged judged') :
    (fresh judged).Perm (fresh judged') := by
  have hp := h.map fun q => (q.1.key, q.1.entry q.2 default)
  rw [List.map_map, List.map_map] at hp
  exact hp

theorem SameResults.branches (stamp stamp' : Nat → Calendar.Moment) (stored stored' : Nat)
    {judged' : List (Job × Result)} (h : SameResults judged judged')
    (hk : (judged.map (·.1.key)).Nodup) (hd : Distinct d.entries) :
    Cache.Document.Branches (fresh judged) (Run.storeAll stamp stored judged d)
      (Run.storeAll stamp' stored' judged' d) := by
  have hfresh : Distinct (fresh judged) := by rwa [Distinct, fresh_keys]
  have hfresh' : Distinct (fresh judged') := ((fresh_perm h).map _).nodup_iff.mp hfresh
  have hlookup : ∀ k, (fresh judged').lookup k = (fresh judged).lookup k :=
    fun k => (Json.lookup_of_perm hfresh (fresh_perm h) k).symm
  have hsplit := Json.putAll_eq hfresh (hd.map Cache.Entry.timeless)
  have hsplit' := Json.putAll_eq hfresh' (hd.map Cache.Entry.timeless)
  simp only [hlookup] at hsplit'
  exact ⟨_, _, _, (storeAll_timeless stamp stored judged d).trans hsplit,
    (storeAll_timeless stamp' stored' judged' d).trans hsplit', (fresh_perm h).filter _,
    List.filter_sublist⟩

end Lint
end JudgedLint
