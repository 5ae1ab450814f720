import JudgedLint.Proofs.Lint.Completeness
import JudgedLint.Proofs.Lint.Script

/-! All or nothing: a run that fails has reported nothing and left every file as it was; one that
completes has reported once, and the cache it saved is the one it loaded with the results of the
misses in their places. Without other obstacles a run fails just if judging some miss ends it. -/
namespace JudgedLint.Lint

open Cache (Store)
open Model (Reply)
open Text (isWellFormed utf8Encode)

namespace Run

variable {σ : Type} {g : Setting σ} {store : Store} {paths : List String} {world : World σ}
  {r : Run σ} {c : Completed} {p : Plan} {fan : Fanout σ}

/-- What a run that fails has done: nothing. -/
structure Undone (store : Store) (world : World σ) (r : Run σ) : Prop where
  reports : r.history.reports = 0
  files : r.world.tree.files = world.tree.files
  holds : ∀ content, store.Holds world.tree content → store.Holds r.world.tree content
  absent : store.Absent world.tree → store.Absent r.world.tree

/-- The document that a run saved, and what is read where it was written. -/
structure Saves (store : Store) (world : World σ) (r : Run σ) (d : Cache.Document) : Prop where
  saved : ∃ paved place, Store.SavedTo { store with document := d } world.tree r.world.tree paved place
  holds : store.Regular world.tree → store.Holds r.world.tree (utf8Encode (Store.encode d))
  readBack : Store.decode (utf8Encode (Store.encode d)) = .ok (.ok d.readBack)

/-- What a run that completes has done, by its plan. -/
structure Accomplished (g : Setting σ) (store : Store) (world : World σ) (p : Plan) (r : Run σ)
    (c : Completed) : Prop where
  loaded : ∃ notes, store.load world.tree = .ok (p.store, notes)
  reports : r.history.reports = 1
  reported : .reported c.results c.summary ∈ r.history
  /-- The results of the misses are stored, and the document is written as it is unless a surrogate
  stands alone in a key. -/
  saved : ∃ judged d, (judged.map (·.1)).Perm p.unjudged ∧ (∀ q ∈ judged, q.2 ∈ c.results) ∧
    Filled g.stamp p.store.document judged d ∧ Saves store world r d ∧
    (d.readBack = d ↔ ∀ e ∈ p.store.document.entries, isWellFormed e.1 = true)

theorem Untouched.undone {t t' : Workspace.Tree} (h : Untouched store t t') :
    t'.files = t.files ∧ (∀ content, store.Holds t content → store.Holds t' content) ∧
      (store.Absent t → store.Absent t') := by
  rcases h with rfl | ⟨s, e, hdir, hsave⟩
  · exact ⟨rfl, fun _ h => h, fun h => h⟩
  · refine ⟨Store.save_error_files hsave, fun content hholds => ?_, fun habsent => ?_⟩
    · exact (Store.Holds.save_error (hholds.of_dir hdir.symm) hsave).of_dir hdir
    · exact (Store.Absent.save_error (habsent.of_dir hdir.symm) hsave).of_dir hdir

theorem Possible.undone (h : Possible g store paths world r) (hw : WellNamed g.rules) {f : Failure}
    (hf : r.outcome = .error f) : Undone store world r := by
  obtain ⟨replies, hs⟩ := h.follows hw
  obtain ⟨_, hreports, huntouched⟩ := h.fails hs hf
  obtain ⟨hfiles, hholds, habsent⟩ := huntouched.undone
  exact ⟨hreports, hfiles, hholds, habsent⟩

theorem Judged.filled (h : Judged g store paths world r c p fan) (hw : WellNamed g.rules) :
    Filled g.stamp p.store.document fan.history.judged
      (storeAll g.stamp world.stored fan.history.judged p.store.document) := by
  obtain ⟨done, hdone, _⟩ := h.reaches.settled h.ended h.failure
  exact storeAll_filled ((plan_planned h.plan).nodup_judged hw hdone.judged_perm) _

theorem Judged.saves (h : Judged g store paths world r c p fan) (hw : WellNamed g.rules)
    (hstamp : ∀ n, (g.stamp n).IsStamp) :
    Saves store world r (storeAll g.stamp world.stored fan.history.judged p.store.document) ∧
      (storeAll g.stamp world.stored fan.history.judged p.store.document).Lasting := by
  obtain ⟨notes, hload⟩ := (plan_planned h.plan).loaded
  obtain ⟨done, hdone, _⟩ := h.reaches.settled h.ended h.failure
  have hlasting := (h.filled hw).lasting (Store.load_lasting hload) hstamp fun q hq =>
    (hdone.mem_judged hq).2
  obtain ⟨records, hsave⟩ := h.saved
  rw [Run.filled, Store.load_dir hload] at hsave
  obtain ⟨paved, place, hsaved⟩ := Store.save_ok hsave
  refine ⟨⟨⟨paved, place, hsaved⟩, fun hregular => ?_, ?_⟩, hlasting⟩
  · have hregular' : Store.Regular ⟨store.dir, storeAll g.stamp world.stored fan.history.judged
        p.store.document⟩ world.tree := hregular.of_dir rfl
    exact (hregular'.save_ok hsave).of_dir rfl
  · exact Cache.decode_encode hlasting hsaved.writable

theorem Judged.accomplished (h : Judged g store paths world r c p fan) (hw : WellNamed g.rules)
    (hstamp : ∀ n, (g.stamp n).IsStamp) : Accomplished g store world p r c := by
  have hplanned := plan_planned h.plan
  obtain ⟨notes, hload⟩ := hplanned.loaded
  obtain ⟨done, hdone, _⟩ := h.reaches.settled h.ended h.failure
  obtain ⟨before, after, hhistory⟩ := h.history
  have hfilled := h.filled hw
  have hdistinct := (Store.load_lasting hload).distinct
  obtain ⟨hsaves, hlasting⟩ := h.saves hw hstamp
  obtain ⟨paved, place, hsaved⟩ := hsaves.saved
  have hkeys := hfilled.isWellFormed_key (fun q hq => (hdone.mem_judged hq).1) hsaved.writable
  refine ⟨⟨notes, hload⟩, ?_, ?_, fan.history.judged, _, hdone.judged_perm, ?_, hfilled, hsaves, ?_⟩
  · rw [hhistory]
    simp [hplanned.reports, h.reaches.reports, Fanout.start]
  · rw [hhistory]
    simp
  · intro q hq
    rw [hdone.judged] at hq
    obtain ⟨d, hd, rfl⟩ := List.mem_map.mp hq
    rw [h.results]
    exact List.mem_append_right _ (hdone.mem_inOrder hd)
  · rw [Cache.Document.readBack_eq_self_iff hlasting]
    simp only [← List.forall_mem_map (f := Prod.fst) (P := fun k => isWellFormed k = true)]
    constructor
    · intro hall k hk
      exact hall k ((hfilled.mem_keys hdistinct).mpr (.inr hk))
    · intro hall k hk
      rcases (hfilled.mem_keys hdistinct).mp hk with hk | hk
      · obtain ⟨q, hq, rfl⟩ := List.mem_map.mp hk
        exact hkeys q hq
      · exact hall k hk

/-- Nothing but the judging can make the run fail: each miss has a model, and whatever results the
misses come to can be saved. -/
structure Unobstructed (g : Setting σ) (world : World σ) (p : Plan) (replies : Job → Nat → Reply) :
    Prop where
  model : ∀ j ∈ p.unjudged, ∃ model, g.judge.modelFor j.rule = .ok model
  save : ∀ judged, Judgments g p replies judged →
    ∃ notes t, (filled g p world.stored judged).save world.tree = (.ok notes, t)

theorem Possible.aborts (h : Possible g store paths world r) {replies : Job → Nat → Reply}
    (hs : r.history.Follows replies) (hp : plan g store paths world.tree = .ok p)
    (ho : Unobstructed g world p replies) {f : Failure} (hf : r.outcome = .error f) :
    ∃ j ∈ p.unjudged, g.judge.Aborts j (replies j) f := by
  obtain ⟨hfails, _, _⟩ := h.fails hs hf
  cases hfails with
  | unplanned hp' => cases hp.symm.trans hp'
  | aborted hp' hj hsettle =>
    cases hp.symm.trans hp'
    obtain ⟨model, hm⟩ := ho.model _ hj
    exact ⟨_, hj, (g.judge.settle_eq_error_iff hm).mp hsettle⟩
  | unsaved hp' hj hsave hf =>
    cases hp.symm.trans hp'
    obtain ⟨notes, t, hok⟩ := ho.save _ hj
    cases hok.symm.trans hsave

theorem Possible.fails_of_aborts (h : Possible g store paths world r) {replies : Job → Nat → Reply}
    (hs : r.history.Follows replies) (hp : plan g store paths world.tree = .ok p)
    (ho : Unobstructed g world p replies) {j : Job} (hj : j ∈ p.unjudged) {f : Failure}
    (ha : g.judge.Aborts j (replies j) f) : ∃ f', r.outcome = .error f' := by
  cases hout : r.outcome with
  | error f' => exact ⟨f', rfl⟩
  | ok c =>
    obtain ⟨p', fan, hjudged⟩ := h.judged hout
    cases hp.symm.trans hjudged.plan
    have hjudgments := hjudged.judgments hs
    obtain ⟨q, hq, rfl⟩ := List.mem_map.mp (hjudgments.perm.mem_iff.mpr hj)
    obtain ⟨model, hm⟩ := ho.model _ hj
    cases (hjudgments.settled q hq).symm.trans ((g.judge.settle_eq_error_iff hm).mpr ha)

/-- Whatever the order in which its jobs are judged and whatever the model answers, a run fails
without effect or completes with its whole effect. The saved document is read back as it is, unless
a surrogate stands alone in a key of the cache that was loaded. -/
theorem Possible.all_or_nothing (h : Possible g store paths world r) (hw : WellNamed g.rules)
    (hstamp : ∀ n, (g.stamp n).IsStamp) :
    (∀ f, r.outcome = .error f → Undone store world r) ∧
      (∀ c, r.outcome = .ok c → ∃ p, plan g store paths world.tree = .ok p ∧
        Accomplished g store world p r c) ∧
      (∃ replies, r.history.Follows replies) ∧
      ∀ replies, r.history.Follows replies → ∀ p, plan g store paths world.tree = .ok p →
        Unobstructed g world p replies →
        ((∃ f, r.outcome = .error f) ↔ ∃ j ∈ p.unjudged, ∃ f, g.judge.Aborts j (replies j) f) ∧
        ∀ f, r.outcome = .error f → ∃ j ∈ p.unjudged, g.judge.Aborts j (replies j) f := by
  refine ⟨fun f hf => h.undone hw hf, fun c hc => ?_, h.follows hw, fun replies hs p hp ho => ?_⟩
  · obtain ⟨p, fan, hj⟩ := h.judged hc
    exact ⟨p, hj.plan, hj.accomplished hw hstamp⟩
  · refine ⟨⟨?_, ?_⟩, fun f hf => h.aborts hs hp ho hf⟩
    · rintro ⟨f, hf⟩
      obtain ⟨j, hj, ha⟩ := h.aborts hs hp ho hf
      exact ⟨j, hj, f, ha⟩
    · rintro ⟨j, hj, f, ha⟩
      exact h.fails_of_aborts hs hp ho hj ha

end Run

namespace Sample

open Cache.Sample

/-- A run that judges its one job and has its whole effect. -/
theorem all_or_nothing_single : ∃ c p,
    (Run.run (setting .error 1 0.5) (store {}) ["a.py"] (world bare)).outcome = .ok c ∧
    Run.plan (setting .error 1 0.5) (store {}) ["a.py"] bare = .ok p ∧
    Run.Accomplished (setting .error 1 0.5) (store {}) (world bare) p
      (Run.run (setting .error 1 0.5) (store {}) ["a.py"] (world bare)) c := by
  obtain ⟨c, _, _, _, hrun, _⟩ := run_bare .error (Nat.le_refl 1) 0.5
  have hok : (Run.run (setting .error 1 0.5) (store {}) ["a.py"] (world bare)).outcome = .ok c := by
    rw [hrun]
  have hpossible := run_possible .error (Nat.le_refl 1) 0.5 bare
  obtain ⟨_, hcompletes, _⟩ :=
    hpossible.all_or_nothing (rule_wellNamed .error) fun _ => moment_isStamp
  obtain ⟨p, hp, haccomplished⟩ := hcompletes c hok
  exact ⟨c, p, hok, hp, haccomplished⟩

/-- A run that completes does not leave every other entry as it was: where a surrogate stands alone in
a key, there is no entry under the key any more. -/
theorem other_entry_lost : ∃ c notes d notes',
    (store {}).load (cached (utf8Encode loneText)) = .ok (store lone, notes) ∧
    lone.entries.lookup loneKey ≠ none ∧
    (Run.run (setting .error 1 0.5) (store {}) ["a.py"]
      (world (cached (utf8Encode loneText)))).outcome = .ok c ∧
    (store {}).load (Run.run (setting .error 1 0.5) (store {}) ["a.py"]
      (world (cached (utf8Encode loneText)))).world.tree = .ok (store d, notes') ∧
    d.entries.lookup loneKey = none := by
  have hw : lone.unwritable? = none := by decide
  obtain ⟨notes, hload, _⟩ := load_cached decode_loneText
  obtain ⟨c, history, durationMs, stop, hrun, _, hs⟩ := run_of_miss .error (Nat.le_refl 1) 0.5
    hload (fileText_source _) rfl fun durationMs => save_cached _ (filled_writable .error hw durationMs)
  have hdecode := Cache.decode_encode (filled_lasting .error (Cache.decode_lasting decode_loneText) hs)
    (filled_writable .error hw durationMs)
  obtain ⟨notes', hload', _⟩ := load_cached hdecode
  refine ⟨c, notes, (filled .error lone durationMs).readBack, notes', hload,
    by decide, ?_, ?_, ?_⟩
  · rw [hrun]
  · rw [hrun]
    exact hload'
  · exact Cache.Document.readBack_lookup_eq_none (by decide)

end Sample

end JudgedLint.Lint
