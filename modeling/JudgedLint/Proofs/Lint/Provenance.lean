import JudgedLint.Proofs.Lint.Chronicle

/-! Where stored results come from. A job is judged only after its question was put to the model of its
rule, so behind each result there is a call and an answer. Each entry of the cache file holds the result
with which a completed run judged a job, as it came in: what later runs serve of it is marked in their
reports, and stored nowhere. -/
namespace JudgedLint.Lint

open Cache (Store)
open Model (RetryOutcome)
open Text (utf8Encode)
open Workspace (Path Tree)

variable {σ : Type} {g : Judge} {j : Job} {r : Result} {history history' : History}

theorem Judge.ending_degraded {d : Int} {o : RetryOutcome Verdict} (h : g.ending j d o = .ok r)
    (herror : r.apiError = true) : r.passed = false ∧ r.line = none := by
  cases o with
  | value v =>
    cases h
    cases herror
  | rejected e => cases h
  | noDelay e => cases h
  | exhausted e =>
    simp only [ending, conclude] at h
    split at h
    · cases h
    · cases h
      exact ⟨rfl, rfl⟩

/-- Behind a result there is a call of the rule's model with the question of the job, and an answer that
ended the job with the result. -/
structure Earned (g : Judge) (history : History) (j : Job) (r : Result) : Prop where
  asked : ∃ model, g.modelFor j.rule = .ok model ∧ .called (g.request model j) ∈ history
  ended : ∃ attempt reply o d, .answered j attempt reply ∈ history ∧
    Model.retryStep g.policy g.random j.label attempt (Verdict.ofReply reply) = .stop o ∧
    g.ending j d o = .ok r

namespace Earned

theorem mono (h : Earned g history j r) (hsub : history ⊆ history') : Earned g history' j r := by
  obtain ⟨model, hmodel, hcalled⟩ := h.asked
  obtain ⟨attempt, reply, o, d, hanswered, hstop, hending⟩ := h.ended
  exact ⟨⟨model, hmodel, hsub hcalled⟩, attempt, reply, o, d, hsub hanswered, hstop, hending⟩

theorem answers (h : Earned g history j r) : r.Answers j := by
  obtain ⟨_, _, _, _, _, _, hending⟩ := h.ended
  exact Judge.ending_answers hending

theorem degraded (h : Earned g history j r) (herror : r.apiError = true) :
    r.passed = false ∧ r.line = none := by
  obtain ⟨_, _, _, _, _, _, hending⟩ := h.ended
  exact Judge.ending_degraded hending herror

end Earned

/-- A started job has put its question to the model of its rule. -/
def Sleeper.Posed (g : Judge) (history : History) (z : Sleeper) : Prop :=
  g.modelFor z.job.rule = .ok z.model ∧ .called (g.request z.model z.job) ∈ history

theorem Sleeper.Posed.of_toActive {z z' : Sleeper} (h : z.Posed g history)
    (hs : z'.toActive = z.toActive) (hsub : history ⊆ history') : z'.Posed g history' := by
  obtain ⟨hmodel, hcalled⟩ := h
  have hj : z'.job = z.job := congrArg Active.job hs
  have hm : z'.model = z.model := congrArg Active.model hs
  rw [Sleeper.Posed, hj, hm]
  exact ⟨hmodel, hsub hcalled⟩

theorem mem_of_eq_append {α : Type} {l before after : List α} {a b : α}
    (h : l = before ++ a :: after) (hb : b ∈ before ++ after) : b ∈ l := by
  rw [h]
  simp only [List.mem_append, List.mem_cons] at hb ⊢
  tauto

namespace Fanout

variable {m : Model.Source σ} {context : Log.Context} {s s' : Fanout σ}

structure Posed (g : Judge) (s : Fanout σ) : Prop where
  asleep : ∀ z ∈ s.asleep, z.Posed g s.history
  judged : ∀ q ∈ s.history.judged, Earned g s.history q.1 q.2

theorem start_posed (slots : Nat) (source : σ) (now : Float) (jobs : List Job) :
    (start slots source now jobs).Posed g :=
  ⟨by simp [start], by simp [start]⟩

theorem Posed.append (h : s.Posed g) {es : History} (hes : s'.history = s.history ++ es)
    (hasleep : ∀ z ∈ s'.asleep, z ∈ s.asleep ∨ z.Posed g s'.history)
    (hjudged : ∀ q ∈ es.judged, Earned g s'.history q.1 q.2) : s'.Posed g := by
  have hsub : s.history ⊆ s'.history := by
    rw [hes]
    exact List.subset_append_left _ _
  refine ⟨fun z hz => ?_, fun q hq => ?_⟩
  · rcases hasleep z hz with hold | hnew
    · exact ⟨(h.asleep z hold).1, hsub (h.asleep z hold).2⟩
    · exact hnew
  · rw [hes, History.judged_append] at hq
    rcases List.mem_append.mp hq with hold | hnew
    · exact (h.judged q hold).mono hsub
    · exact hjudged q hnew

theorem Posed.replaced (h : s.Posed g) {before after : List Sleeper} {z z' : Sleeper} {es : History}
    (hz : s.asleep = before ++ z :: after) (hs : z'.toActive = z.toActive)
    (hz' : s'.asleep = before ++ after ++ [z']) (hes : s'.history = s.history ++ es)
    (hjudged : es.judged = []) : s'.Posed g := by
  refine h.append hes (fun y hy => ?_) (by simp [hjudged])
  rw [hz'] at hy
  rcases List.mem_append.mp hy with hold | hnew
  · exact .inl (mem_of_eq_append hz hold)
  · obtain rfl := List.mem_singleton.mp hnew
    rw [hes]
    exact .inr ((h.asleep z (by simp [hz])).of_toActive hs (List.subset_append_left _ _))

theorem Change.posed (hs : Change g context s s') (h : s.Posed g) : s'.Posed g := by
  cases hs with
  | unknown now hq he => exact h.append (List.append_nil _).symm (fun z hz => .inl hz) (by simp)
  | @started before after q z reply now source hfree hq hm hi hj ha hw =>
    refine h.append rfl (fun y hy => ?_) (by simp)
    rcases List.mem_append.mp hy with hold | hnew
    · exact .inl hold
    · obtain rfl := List.mem_singleton.mp hnew
      exact .inr ⟨hj ▸ hm, by simp⟩
  | resumed now source hz hp hs ha hw => exact h.replaced hz hs rfl rfl (by simp)
  | paused now hz hw hr hs ha hp => exact h.replaced hz hs rfl rfl (by simp)
  | failed now notes hz hw hr hf =>
    exact h.append rfl (fun y hy => .inl (mem_of_eq_append hz hy)) (by simp)
  | @judged before after z reply o start stop r now notes hz hw hr hf =>
    obtain ⟨hmodel, hcalled⟩ := h.asleep z (by simp [hz])
    refine h.append rfl (fun y hy => .inl (mem_of_eq_append hz hy)) fun q hq => ?_
    obtain rfl : q = (z.job, r) := by simpa using hq
    exact ⟨⟨z.model, hmodel, by simp [hcalled]⟩, z.attempt, reply, o, _, by simp, hr, hf⟩

theorem Reaches.posed {slots : Nat} {source : σ} {now : Float} {jobs : List Job}
    (h : Reaches m g context (start slots source now jobs) s) : s.Posed g := by
  induction h with
  | refl => exact start_posed slots source now jobs
  | tail _ hs ih => exact (Step.change hs).posed ih

end Fanout

variable {dir : Path} {t : Tree} {e : Episode σ} {past later episodes : List (Episode σ)}

/-- A completed run judged the text that it read and the prompt of the rule, and came to the result. -/
structure Episode.Judges (e : Episode σ) (j : Job) (r : Result) : Prop where
  completed : ∃ c, e.run.outcome = .ok c
  job : j ∈ e.jobs
  isRuleId : isRuleId j.rule.id = true
  text : fileText e.before.tree j.file = .ok j.content
  earned : Earned e.setting.judge e.run.history j r
  finished : .finished j r ∈ e.run.history

theorem Continues.judges {d : Cache.Document} {c : Completed} {p : Run.Plan} {fan : Fanout σ}
    (h : Continues dir past d e c p fan) {q : Job × Result} (hq : q ∈ fan.history.judged) :
    e.Judges q.1 q.2 := by
  have hj : q.1 ∈ p.jobs := (h.mem_unjudged.mp (h.unjudged_of_judged hq)).1
  have hjob : q.1 ∈ e.jobs := h.jobs_eq ▸ hj
  obtain ⟨before, after, hhistory⟩ := h.judged.history
  have hsub : fan.history ⊆ e.run.history := by
    intro event hevent
    rw [hhistory]
    simp [hevent]
  exact ⟨⟨c, h.outcome⟩, hjob, h.isRuleId hj, h.planned.text q.1 hj,
    (h.judged.reaches.posed.judged q hq).mono hsub, h.finished hq⟩

def Comes (episodes : List (Episode σ)) (k : String) (x : Cache.Entry) : Prop :=
  ∃ e ∈ episodes, ∃ j r timestamp, e.Judges j r ∧ k = j.key ∧ x = j.entry r timestamp

theorem Comes.cons {k : String} {x : Cache.Entry} (h : Comes past k x) (e : Episode σ) :
    Comes (e :: past) k x := by
  obtain ⟨e₀, he₀, horigin⟩ := h
  exact ⟨e₀, List.mem_cons_of_mem _ he₀, horigin⟩

theorem Filled.entry_cases {stamp : Nat → Calendar.Moment} {d d' : Cache.Document}
    {judged : List (Job × Result)} (h : Filled stamp d judged d') (hd : Json.Distinct d.entries)
    {k : String} {x : Cache.Entry} (hx : (k, x) ∈ d'.entries) :
    (k, x) ∈ d.entries ∨ ∃ q ∈ judged, ∃ n, k = q.1.key ∧ x = q.1.entry q.2 (stamp n) := by
  have hlookup := Json.lookup_of_mem (h.distinct hd) hx
  by_cases hk : k ∈ judged.map (·.1.key)
  · obtain ⟨q, hq, rfl⟩ := List.mem_map.mp hk
    obtain ⟨n, hn⟩ := h.stored q hq
    exact .inr ⟨q, hq, n, rfl, Option.some.inj (hlookup.symm.trans hn)⟩
  · rw [h.kept k hk] at hlookup
    exact .inl (Json.mem_of_lookup hlookup)

/-- By induction on the runs: a run stores what it judged, and leaves alone what it served. -/
theorem Chronicle.comes (h : Chronicle dir episodes t) : ∃ d, Remembers episodes d ∧ Keeps dir t d ∧
    ∀ k x, (k, x) ∈ d.entries → Comes episodes k x := by
  refine h.document (P := fun episodes d => ∀ k x, (k, x) ∈ d.entries → Comes episodes k x) ?_ ?_ ?_
  · simp
  · intro past e d hd k x hx
    exact (hd k x hx).cons e
  · intro past e d d' c p fan hrun hfilled hd k x hx
    rcases hfilled.entry_cases hrun.remembers.lasting.distinct hx with hold | ⟨q, hq, n, hk, hentry⟩
    · exact (hd k x hold).cons e
    · exact ⟨e, List.mem_cons_self, q.1, q.2, _, hrun.judges hq, hk, hentry⟩

structure Sound (episodes : List (Episode σ)) (k : String) (x : Cache.Entry) : Prop where
  key : k = x.ruleId ++ ":" ++ x.result.file
  ruleId : x.ruleId = x.result.ruleId
  isRuleId : isRuleId x.ruleId = true
  fresh : x.result.cached = false
  degraded : x.result.apiError = true → x.result.passed = false ∧ x.result.line = none
  /-- The fingerprints are those of the text and the prompt that were judged with the result. -/
  judged : ∃ e ∈ episodes, ∃ j, e.Judges j x.result ∧
    x.fileHash = Digest.ofText j.content ∧ x.promptHash = Digest.ofText j.rule.prompt

theorem Comes.sound {k : String} {x : Cache.Entry} (h : Comes episodes k x) : Sound episodes k x := by
  obtain ⟨e, he, j, r, timestamp, hjudges, rfl, rfl⟩ := h
  have hanswers := hjudges.earned.answers
  refine ⟨?_, hanswers.ruleId.symm, hjudges.isRuleId, hanswers.fresh, hjudges.earned.degraded,
    e, he, j, hjudges, Episode.job_hashes hjudges.job⟩
  simp only [Job.entry, hanswers.file]
  rfl

/-- The cache file, whatever runs completed or failed and whatever changed between them: there is none,
or it is read as a document whose entries all are sound. -/
theorem Chronicle.entries_sound (h : Chronicle dir episodes t) :
    Store.Absent ⟨dir, {}⟩ t ∨ ∃ d, Store.Holds ⟨dir, {}⟩ t (utf8Encode (Store.encode d)) ∧
      Store.decode (utf8Encode (Store.encode d)) = .ok (.ok d) ∧
      ∀ k x, (k, x) ∈ d.entries → Sound episodes k x := by
  obtain ⟨d, hremembers, hkeeps, hcomes⟩ := h.comes
  rcases hkeeps with ⟨habsent, _⟩ | ⟨hholds, hw⟩
  · exact .inl habsent
  · refine .inr ⟨d, hholds, ?_, fun k x hx => (hcomes k x hx).sound⟩
    have hdecode := Cache.decode_encode hremembers.lasting hw
    rwa [(Cache.Document.readBack_eq_self_iff hremembers.lasting).mpr hremembers.keys] at hdecode

namespace Sample

open Cache.Sample

/-- The result that the first run stored is still there behind the second, which was served it. -/
theorem entries_sound_twice : ∃ t t' d,
    Chronicle (store {}).dir [episode .error t, episode .error bare] t' ∧
    Store.Holds ⟨(store {}).dir, {}⟩ t' (utf8Encode (Store.encode d)) ∧
    Store.decode (utf8Encode (Store.encode d)) = .ok (.ok d) ∧
    ∃ k x, (k, x) ∈ d.entries ∧ Sound [episode .error t, episode .error bare] k x := by
  obtain ⟨durationMs, h⟩ := exists_twice .error .error
  have hheld := holds_cached (utf8Encode (Store.encode (filled .error {} durationMs)))
  rcases h.chronicle.entries_sound with habsent | ⟨d, hholds, hdecode, hsound⟩
  · cases habsent.standing.symm.trans hheld
  · have hcontent := Workspace.Entry.file.inj (Option.some.inj (hholds.symm.trans hheld))
    have hfilled := hdecode
    rw [hcontent, decode_filled .error h.short] at hfilled
    obtain rfl := Except.ok.inj (Except.ok.inj hfilled)
    have hentry := Json.mem_of_lookup (Json.lookup_put_self (job .error).key
      ((job .error).entry (result .error durationMs) moment) [])
    exact ⟨_, _, _, h.chronicle, hholds, hdecode, _, _, hentry, hsound _ _ hentry⟩

end Sample

end JudgedLint.Lint
