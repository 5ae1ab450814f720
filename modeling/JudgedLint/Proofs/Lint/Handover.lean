import JudgedLint.Proofs.Lint.Atomic
import JudgedLint.Proofs.Lint.Chronicle
import JudgedLint.Proofs.Lint.Validation

/-! What a run hands over can be written down. The results of one that completes have been saved, so no
surrogate stands alone in their texts, and their numbers are short enough to be read back; of the failure
of any other there is something to say. -/
namespace JudgedLint

/-- The failure ends a command with an error of which something is said. -/
structure Failure.IsTold (f : Failure) : Prop where
  uninterrupted : f ≠ .interrupted
  nonempty : f.messageOrKind ≠ ""

theorem Failure.messageOrKind_of_message {f : Failure} (h : f.message ≠ "") : f.messageOrKind ≠ "" := by
  rw [messageOrKind, if_neg (by simpa using h)]
  exact h

theorem Failure.isTold {f : Failure} (hf : f ≠ .interrupted) (hcall : ∀ e, f ≠ .call e) : f.IsTold := by
  have hkind : f.kind ≠ "" := by
    have hrefusal (r : Workspace.Refusal) : r.kind ≠ "" := by cases r <;> decide
    have hyaml (y : Yaml.Fault) : y.kind ≠ "" := by
      unfold Yaml.Fault.kind
      repeat' split
      all_goals decide
    have hclient (e : Model.ClientError) : e.kind ≠ "" := by cases e <;> exact of_decide_eq_true rfl
    have hsink (e : Log.SinkError) : sinkKind e ≠ "" := by
      unfold sinkKind
      split
      · exact hrefusal _
      all_goals decide
    cases f with
    | call e => exact absurd rfl (hcall e)
    | file e => exact hrefusal e.refusal
    | yaml y => exact hyaml y
    | client e => exact hclient e
    | sink e => exact hsink e
    | rulesType type isIterable => cases isIterable <;> exact of_decide_eq_true rfl
    | json e =>
      simp only [kind]
      split <;> decide
    | delay e => cases e <;> exact of_decide_eq_true rfl
    | _ => exact of_decide_eq_true rfl
  refine ⟨hf, ?_⟩
  unfold messageOrKind
  split
  · exact hkind
  · next h => simpa using h

namespace Lint

open Cache (Store)

theorem Judge.text_of_ending {g : Judge} {j : Job} {d : Int} {o : Model.RetryOutcome Verdict}
    {e : Model.CallError} (h : g.ending j d o = .error (.call e)) : e.text ≠ "" := by
  cases o with
  | value v => cases h
  | noDelay e => cases h
  | rejected e =>
    cases h
    simp [Model.CallError.authentication, ToString.toString]
  | exhausted e =>
    simp only [ending, conclude] at h
    split at h
    · cases h
      simp [Model.CallError.endpoint, ToString.toString]
    · cases h

theorem Judge.settle_isTold {g : Judge} {j : Job} {replies : Nat → Model.Reply} {f : Failure}
    (h : g.settle j replies = .error f) : f.IsTold := by
  cases hm : g.modelFor j.rule with
  | error e =>
    rw [settle_of_unknown replies hm] at h
    cases h
    exact Failure.isTold (by simp) (by simp)
  | ok model =>
    cases (settle_eq_error_iff hm).mp h with
    | delay _ => exact Failure.isTold (by simp) (by simp)
    | @fatal e hfatal =>
      obtain ⟨d, hd⟩ := judge_outcome_settled hm fun k => ⟨0.0, replies k⟩
      rw [show (g.judge j fun k => ⟨0.0, replies k⟩).outcome = .ok (.fatal e) from hfatal] at hd
      exact ⟨by simp, Failure.messageOrKind_of_message (text_of_ending hd.symm)⟩

theorem Config.load_eq_ok {catalog : Model.Catalog} {t : Workspace.Tree} {path : Workspace.Path}
    {c : Config} (h : load catalog t path = .ok c) : WellNamed c.rules ∧ 1 ≤ c.concurrency := by
  have hvalid : ∃ raw, validate catalog raw = .ok c := by
    simp only [load] at h
    split at h
    · cases h
    · obtain ⟨text, _, h⟩ := bind_eq_ok.mp h
      split at h
      · cases h
      · next raw _ => exact ⟨raw, h⟩
  obtain ⟨raw, hvalid⟩ := hvalid
  obtain ⟨⟨d, _, hread⟩, _⟩ := validate_eq_ok hvalid
  obtain ⟨_, _, hrules⟩ := reader_eq_ok hread
  obtain ⟨_, _, hrules⟩ := Form.required_eq_ok.mp hrules
  obtain ⟨hfilled, hdistinct⟩ := rulesReader_eq_ok hrules
  exact ⟨⟨fun r hr => (hfilled r hr).id, hdistinct⟩, (concurrency_bounds hvalid).1⟩

theorem jobsOf_error {t : Workspace.Tree} {f : Failure} : ∀ {matched : List (String × List Rule)},
    jobsOf t matched = .error f → ∃ e, f = .file e
  | [], h => by cases h
  | (file, rules) :: rest, h => by
    unfold jobsOf at h
    split at h
    · exact jobsOf_error h
    · cases hcontent : fileText t file with
      | error f' =>
        rw [hcontent] at h
        cases h
        unfold fileText at hcontent
        cases hread : t.read (.ofText file) with
        | error e =>
          rw [hread] at hcontent
          cases hcontent
          exact ⟨e, rfl⟩
        | ok bytes =>
          rw [hread] at hcontent
          cases hcontent
      | ok content =>
        rw [hcontent] at h
        cases hmore : jobsOf t rest with
        | error f' =>
          rw [hmore] at h
          cases h
          exact jobsOf_error hmore
        | ok more =>
          rw [hmore] at h
          cases h

namespace Run

variable {σ : Type} {g : Setting σ} {store : Store} {paths : List String} {world : World σ}
  {r : Run σ} {c : Completed} {p : Plan} {fan : Fanout σ}

theorem Judged.key_notMem (h : Judged g store paths world r c p fan) (hw : WellNamed g.rules) {j : Job}
    {result : Result} (hj : (j, result) ∈ p.served) :
    j.key ∉ fan.history.judged.map (·.1.key) := by
  obtain ⟨done, hdone, _⟩ := h.reaches.settled h.ended h.failure
  obtain ⟨hjob, stored, hlookup, _⟩ := mem_hits.mp hj
  intro hmem
  obtain ⟨q, hq, hkey⟩ := List.mem_map.mp hmem
  have hmiss : q.1 ∈ p.unjudged := hdone.judged_perm.mem_iff.mp (List.mem_map_of_mem hq)
  obtain ⟨hjob', hnone⟩ := List.mem_filter.mp hmiss
  have heq : q.1 = j :=
    List.inj_on_of_nodup_map ((plan_planned h.plan).nodup_keys hw) hjob' hjob hkey
  rw [heq, cachedResult, hlookup] at hnone
  cases hnone

theorem lasting_of_entry {d : Cache.Document} {key : String} {e : Cache.Entry}
    (hw : d.unwritable? = none) (he : d.entries.lookup key = some e) (hshort : e.result.Short) :
    e.result.Lasting := by
  have htexts := Cache.Document.unwritable?_eq_none_iff.mp hw _ (Json.mem_of_lookup he)
  refine ⟨hshort, fun s hs => htexts s ?_⟩
  simp only [Cache.Entry.texts, List.mem_cons] at hs ⊢
  tauto

theorem Judged.lasting (h : Judged g store paths world r c p fan) (hw : WellNamed g.rules) :
    ∀ result ∈ c.results, result.Lasting := by
  obtain ⟨notes, hload⟩ := (plan_planned h.plan).loaded
  obtain ⟨done, hdone, _⟩ := h.reaches.settled h.ended h.failure
  obtain ⟨records, hsave⟩ := h.saved
  obtain ⟨paved, place, hsaved⟩ := Store.save_ok hsave
  have hfilled := h.filled hw
  intro result hresult
  rw [h.results] at hresult
  rcases List.mem_append.mp hresult with hserved | hfresh
  · obtain ⟨⟨j, result⟩, hj, rfl⟩ := List.mem_map.mp hserved
    obtain ⟨_, stored, hlookup, rfl⟩ := mem_hits.mp hj
    obtain ⟨e, he, _, _, rfl⟩ := Cache.Document.lookup_eq_some.mp hlookup
    have hkept := (hfilled.kept j.key (h.key_notMem hw hj)).trans he
    have hshort := ((Store.load_lasting hload).entries _ (Json.mem_of_lookup he)).result
    exact (lasting_of_entry hsaved.writable hkept hshort).cached true
  · obtain ⟨i, _, hi⟩ := List.mem_filterMap.mp hfresh
    obtain ⟨before, after, hresults, _⟩ := List.lookup_eq_some_iff.mp hi
    have hmem : (i, result) ∈ fan.results := by
      rw [hresults]
      exact List.mem_append_right _ List.mem_cons_self
    rw [hdone.results] at hmem
    obtain ⟨d, hd, heq⟩ := List.mem_map.mp hmem
    cases heq
    have hjudged : (d.job, d.result) ∈ fan.history.judged := by
      rw [hdone.judged]
      exact List.mem_map_of_mem hd
    obtain ⟨n, hstored⟩ := hfilled.stored _ hjudged
    exact lasting_of_entry hsaved.writable hstored (hdone.short d hd)

/-- The results of a run that completes can be written so that they are read back. -/
theorem run_lasting (hslots : 1 ≤ g.slots) (hw : WellNamed g.rules)
    (hc : (run g store paths world).outcome = .ok c) : ∀ result ∈ c.results, result.Lasting := by
  obtain ⟨p, fan, hjudged⟩ := (run_possible hslots).judged hc
  exact hjudged.lasting hw

theorem plan_isTold {t : Workspace.Tree} {f : Failure} {history : History}
    (h : plan g store paths t = .error (f, history)) : f.IsTold := by
  have hfiles {matched : List (String × List Rule)} (hj : jobsOf t matched = .error f) : f.IsTold := by
    obtain ⟨e, rfl⟩ := jobsOf_error hj
    exact Failure.isTold (by simp) (by simp)
  unfold plan at h
  split at h
  · next e _ =>
    cases h
    cases e <;> exact Failure.isTold (by simp [Failure.ofCacheLoad]) (by simp [Failure.ofCacheLoad])
  · split at h
    · cases h
      exact Failure.isTold (by simp) (by simp)
    · dsimp only at h
      split at h
      · next hj =>
        cases h
        exact hfiles hj
      · cases h

theorem run_isTold (hslots : 1 ≤ g.slots) (hw : WellNamed g.rules) {f : Failure}
    (hf : (run g store paths world).outcome = .error f) : f.IsTold := by
  have hpossible : Possible g store paths world (run g store paths world) := run_possible hslots
  obtain ⟨replies, hfollows⟩ := hpossible.follows hw
  cases (hpossible.fails hfollows hf).1 with
  | unplanned hp => exact plan_isTold hp
  | aborted _ _ hs => exact Judge.settle_isTold hs
  | @unsaved _ _ e _ _ _ _ he =>
    rw [he]
    cases e <;> exact Failure.isTold (by simp [Failure.ofSave]) (by simp [Failure.ofSave])

end Run
end Lint
end JudgedLint
