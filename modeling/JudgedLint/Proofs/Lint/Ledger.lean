import JudgedLint.Proofs.Lint.Event
import JudgedLint.Proofs.Lint.Interleaving
import Mathlib.Data.List.Forall2
import Mathlib.Data.List.Induction
import Mathlib.Data.List.Nodup

/-! The books of a fan-out: whatever the order of its steps, each job stands in exactly one place:
waiting, started, done with its result, or lost with the failure that ended it. What a job is done
or lost with is what judging it alone comes to, on the replies that its attempts got. -/
namespace JudgedLint.Lint

open Model (Reply Pauses)

/-- A started job whose model is known, and whose earlier attempts were all followed by a pause. -/
structure Judge.Underway (g : Judge) (replies : Nat → Reply) (z : Sleeper) : Prop where
  model : g.modelFor z.job.rule = .ok z.model
  first : 1 ≤ z.attempt
  pauses : Pauses g.policy (fun _ => g.random) z.job.label (fun k => Verdict.ofReply (replies k)) 1
    z.attempt

namespace Fanout

variable {σ : Type} {m : Model.Source σ} {g : Judge} {context : Log.Context} {slots : Nat}
  {s s' : Fanout σ} {jobs : List Job}

def numbered (jobs : List Job) : List (Nat × Job) := jobs.zipIdx.map fun j => (j.2, j.1)

structure Done where
  index : Nat
  job : Job
  result : Result

structure Lost where
  index : Nat
  job : Job
  failure : Failure

/-- The places of all jobs of a fan-out, wherever they are. -/
def places (s : Fanout σ) (done : List Done) (lost : List Lost) : List (Nat × Job) :=
  s.queue ++ s.asleep.map (fun z => (z.index, z.job)) ++ done.map (fun d => (d.index, d.job)) ++
    lost.map fun l => (l.index, l.job)

structure Accounts (g : Judge) (jobs : List Job) (s : Fanout σ) (done : List Done)
    (lost : List Lost) : Prop where
  places : (s.places done lost).Perm (numbered jobs)
  results : s.results = done.map fun d => (d.index, d.result)
  judged : s.history.judged = done.map fun d => (d.job, d.result)
  failure : s.failure = lost.head?.map (·.failure)
  answers : ∀ d ∈ done, d.result.Answers d.job
  short : ∀ d ∈ done, d.result.Short
  underway : ∀ replies, s.history.Follows replies → ∀ z ∈ s.asleep, g.Underway (replies z.job) z
  settled : ∀ replies, s.history.Follows replies →
    ∀ d ∈ done, g.settle d.job (replies d.job) = .ok d.result.timeless
  failed : ∀ replies, s.history.Follows replies →
    ∀ l ∈ lost, g.settle l.job (replies l.job) = .error l.failure

namespace Accounts

variable {done : List Done} {lost : List Lost}

theorem start (slots : Nat) (source : σ) (now : Float) :
    Accounts g jobs (start slots source now jobs) [] [] where
  places := by
    simp only [Fanout.places, Fanout.start, numbered, List.map_nil, List.append_nil]
    exact .refl _
  results := rfl
  judged := rfl
  failure := rfl
  answers := by simp
  short := by simp
  underway := by simp [Fanout.start]
  settled := by simp
  failed := by simp

theorem unknown (h : Accounts g jobs s done lost) {before after : List (Nat × Job)} {q : Nat × Job}
    {e : Model.CatalogError} (now : Float) (hq : s.queue = before ++ q :: after)
    (he : g.modelFor q.2.rule = .error e) :
    Accounts g jobs ⟨before ++ after, s.asleep, s.free, now, s.source, s.results, s.history,
      s.failure.or (some (.catalog e))⟩ done (lost ++ [⟨q.1, q.2, .catalog e⟩]) where
  places := by
    refine List.Perm.trans (List.perm_iff_count.mpr fun a => ?_) h.places
    simp only [Fanout.places, hq, List.map_append, List.map_cons, List.map_nil, List.count_append,
      List.count_cons, List.count_nil, Prod.eta]
    omega
  results := h.results
  judged := h.judged
  failure := by
    simp only [h.failure, List.head?_append, Option.map_or]
    rfl
  answers := h.answers
  short := h.short
  underway := h.underway
  settled := h.settled
  failed := by
    intro replies hr l hl
    rcases List.mem_append.mp hl with hl | hl
    · exact h.failed replies hr l hl
    · obtain rfl := List.mem_singleton.mp hl
      exact g.settle_of_unknown _ he

theorem started (h : Accounts g jobs s done lost) {before after : List (Nat × Job)} {q : Nat × Job}
    {z : Sleeper} (now : Float) (source : σ) (request : Model.Request)
    (hq : s.queue = before ++ q :: after) (hm : g.modelFor q.2.rule = .ok z.model)
    (hi : z.index = q.1) (hj : z.job = q.2) (ha : z.attempt = 1) :
    Accounts g jobs ⟨before ++ after, s.asleep ++ [z], s.free - 1, now, source, s.results,
      s.history ++ [.called request], s.failure⟩ done lost where
  places := by
    refine List.Perm.trans (List.perm_iff_count.mpr fun a => ?_) h.places
    simp only [Fanout.places, hq, List.map_append, List.map_cons, List.map_nil, List.count_append,
      List.count_cons, List.count_nil, hi, hj, Prod.eta]
    omega
  results := h.results
  judged := by simpa using h.judged
  failure := h.failure
  answers := h.answers
  short := h.short
  underway := by
    intro replies hr z' hz'
    rcases List.mem_append.mp hz' with hz' | hz'
    · exact h.underway replies hr.of_append z' hz'
    · obtain rfl := List.mem_singleton.mp hz'
      exact ⟨by rw [hj]; exact hm, Nat.le_of_eq ha.symm, by rw [ha]; exact .refl 1⟩
  settled := fun replies hr => h.settled replies hr.of_append
  failed := fun replies hr => h.failed replies hr.of_append

theorem underway_of_removed (h : Accounts g jobs s done lost) {before after : List Sleeper}
    {z : Sleeper} {es : History} (hz : s.asleep = before ++ z :: after) {replies : Job → Nat → Reply}
    (hr : History.Follows (s.history ++ es) replies) :
    ∀ y ∈ before ++ after, g.Underway (replies y.job) y := by
  intro y hy
  refine h.underway replies hr.of_append y ?_
  simp only [hz, List.mem_append, List.mem_cons] at hy ⊢
  tauto

theorem replaced (h : Accounts g jobs s done lost) {before after : List Sleeper} {z z' : Sleeper}
    {es : History} (now : Float) (source : σ) (hz : s.asleep = before ++ z :: after)
    (hi : z'.index = z.index) (hj : z'.job = z.job) (hes : History.judged es = [])
    (hu : ∀ replies, History.Follows (s.history ++ es) replies → g.Underway (replies z.job) z →
      g.Underway (replies z.job) z') :
    Accounts g jobs ⟨s.queue, before ++ after ++ [z'], s.free, now, source, s.results,
      s.history ++ es, s.failure⟩ done lost where
  places := by
    refine List.Perm.trans (List.perm_iff_count.mpr fun a => ?_) h.places
    simp only [Fanout.places, hz, List.map_append, List.map_cons, List.map_nil, List.count_append,
      List.count_cons, List.count_nil, hi, hj]
    omega
  results := h.results
  judged := by simpa [hes] using h.judged
  failure := h.failure
  answers := h.answers
  short := h.short
  underway := by
    intro replies hr y hy
    rcases List.mem_append.mp hy with hy | hy
    · exact h.underway_of_removed hz hr y hy
    · obtain rfl := List.mem_singleton.mp hy
      rw [hj]
      exact hu replies hr (h.underway replies hr.of_append z (by simp [hz]))
  settled := fun replies hr => h.settled replies hr.of_append
  failed := fun replies hr => h.failed replies hr.of_append

/-- An answer that no pause follows ends its job as judging it alone does. -/
theorem settle_of_stop (h : Accounts g jobs s done lost) {before after : List Sleeper} {z : Sleeper}
    {reply : Reply} {o : Model.RetryOutcome Verdict} {es : History}
    (hz : s.asleep = before ++ z :: after)
    (hs : Model.retryStep g.policy g.random z.job.label z.attempt (Verdict.ofReply reply) = .stop o)
    (d : Int) (replies : Job → Nat → Reply)
    (hr : History.Follows (s.history ++ .answered z.job z.attempt reply :: es) replies) :
    g.settle z.job (replies z.job) = (g.ending z.job d o).map Result.timeless := by
  have hu := h.underway replies hr.of_append z (by simp [hz])
  have hreply : reply = replies z.job z.attempt := hr z.job z.attempt reply (by simp)
  rw [hreply] at hs
  exact g.settle_of_stop hu.model hu.first hu.pauses hs d

theorem lose (h : Accounts g jobs s done lost) {before after : List Sleeper} {z : Sleeper}
    {reply : Reply} {o : Model.RetryOutcome Verdict} {es : History} {d : Int} {f : Failure}
    (now : Float) (hz : s.asleep = before ++ z :: after) (hes : History.judged es = [])
    (hs : Model.retryStep g.policy g.random z.job.label z.attempt (Verdict.ofReply reply) = .stop o)
    (hf : g.ending z.job d o = .error f) :
    Accounts g jobs ⟨s.queue, before ++ after, s.free + 1, now, s.source, s.results,
      s.history ++ .answered z.job z.attempt reply :: es, s.failure.or (some f)⟩ done
      (lost ++ [⟨z.index, z.job, f⟩]) where
  places := by
    refine List.Perm.trans (List.perm_iff_count.mpr fun a => ?_) h.places
    simp only [Fanout.places, hz, List.map_append, List.map_cons, List.map_nil, List.count_append,
      List.count_cons, List.count_nil]
    omega
  results := h.results
  judged := by simpa [hes] using h.judged
  failure := by
    simp only [h.failure, List.head?_append, Option.map_or]
    rfl
  answers := h.answers
  short := h.short
  underway := fun _ hr => h.underway_of_removed hz hr
  settled := fun replies hr => h.settled replies hr.of_append
  failed := by
    intro replies hr l hl
    rcases List.mem_append.mp hl with hl | hl
    · exact h.failed replies hr.of_append l hl
    · obtain rfl := List.mem_singleton.mp hl
      rw [h.settle_of_stop hz hs d replies hr, hf]
      rfl

theorem finish (h : Accounts g jobs s done lost) {before after : List Sleeper} {z : Sleeper}
    {reply : Reply} {o : Model.RetryOutcome Verdict} {es : History} {start stop : Float} {r : Result}
    (now : Float) (hz : s.asleep = before ++ z :: after)
    (hes : History.judged es = [(z.job, r)])
    (hs : Model.retryStep g.policy g.random z.job.label z.attempt (Verdict.ofReply reply) = .stop o)
    (hf : g.ending z.job (Judge.milliseconds start stop) o = .ok r) :
    Accounts g jobs ⟨s.queue, before ++ after, s.free + 1, now, s.source,
      s.results ++ [(z.index, r)], s.history ++ .answered z.job z.attempt reply :: es, s.failure⟩
      (done ++ [⟨z.index, z.job, r⟩]) lost where
  places := by
    refine List.Perm.trans (List.perm_iff_count.mpr fun a => ?_) h.places
    simp only [Fanout.places, hz, List.map_append, List.map_cons, List.map_nil, List.count_append,
      List.count_cons, List.count_nil]
    omega
  results := by simp [h.results]
  judged := by simp [h.judged, hes]
  failure := h.failure
  answers := by
    intro d' hd'
    rcases List.mem_append.mp hd' with hd' | hd'
    · exact h.answers d' hd'
    · obtain rfl := List.mem_singleton.mp hd'
      exact g.ending_answers hf
  short := by
    intro d' hd'
    rcases List.mem_append.mp hd' with hd' | hd'
    · exact h.short d' hd'
    · obtain rfl := List.mem_singleton.mp hd'
      exact g.ending_short hs hf
  underway := fun _ hr => h.underway_of_removed hz hr
  settled := by
    intro replies hr d' hd'
    rcases List.mem_append.mp hd' with hd' | hd'
    · exact h.settled replies hr.of_append d' hd'
    · obtain rfl := List.mem_singleton.mp hd'
      rw [h.settle_of_stop hz hs _ replies hr, hf]
      rfl
  failed := fun replies hr => h.failed replies hr.of_append

theorem step (h : Accounts g jobs s done lost) (hs : Change g context s s') :
    ∃ done' lost', Accounts g jobs s' done' lost' := by
  cases hs with
  | unknown now hq he => exact ⟨_, _, h.unknown now hq he⟩
  | started now source hfree hq hm hi hj ha hw =>
    exact ⟨_, _, h.started now source _ hq hm hi hj ha⟩
  | @resumed before after z z' reply now source hz hp hs ha hw =>
    have hi : z'.index = z.index := congrArg Active.index hs
    have hj : z'.job = z.job := congrArg Active.job hs
    have hm : z'.model = z.model := congrArg Active.model hs
    refine ⟨_, _, h.replaced now source hz hi hj rfl fun replies _ hu => ⟨?_, ?_, ?_⟩⟩
    · rw [hj, hm]; exact hu.model
    · rw [ha]; exact hu.first
    · rw [hj, ha]; exact hu.pauses
  | @paused before after z z' reply seconds note now hz hw hr hs ha hp =>
    have hi : z'.index = z.index := congrArg Active.index hs
    have hj : z'.job = z.job := congrArg Active.job hs
    have hm : z'.model = z.model := congrArg Active.model hs
    refine ⟨_, _, h.replaced now s.source hz hi hj (by simp) fun replies hf hu => ⟨?_, ?_, ?_⟩⟩
    · rw [hj, hm]; exact hu.model
    · rw [ha]; exact Nat.le_succ_of_le hu.first
    · have hreply : reply = replies z.job z.attempt := hf z.job z.attempt reply (by simp)
      rw [hreply] at hr
      rw [hj, ha]
      exact hu.pauses.snoc hr
  | failed now notes hz hw hr hf => exact ⟨_, _, h.lose now hz (by simp) hr hf⟩
  | judged now notes hz hw hr hf => exact ⟨_, _, h.finish now hz (by simp) hr hf⟩

end Accounts

/-- Whatever the order of the steps, the books can be kept. -/
theorem Reaches.accounts {source : σ} {now : Float}
    (h : Reaches m g context (start slots source now jobs) s) :
    ∃ done lost, Accounts g jobs s done lost := by
  induction h with
  | refl => exact ⟨_, _, .start slots source now⟩
  | tail _ hs ih =>
    obtain ⟨done, lost, ha⟩ := ih
    exact ha.step (Step.change hs)

theorem mem_numbered {i : Nat} {j : Job} : (i, j) ∈ numbered jobs ↔ jobs[i]? = some j := by
  simp only [numbered, List.mem_map, Prod.mk.injEq]
  constructor
  · rintro ⟨⟨j', i'⟩, hmem, rfl, rfl⟩
    exact List.mk_mem_zipIdx_iff_getElem?.mp hmem
  · intro h
    exact ⟨(j, i), List.mk_mem_zipIdx_iff_getElem?.mpr h, rfl, rfl⟩

theorem numbered_places (jobs : List Job) : (numbered jobs).map (·.1) = List.range jobs.length := by
  simp [numbered, List.map_map, Function.comp_def, List.range_eq_range']

theorem numbered_jobs (jobs : List Job) : (numbered jobs).map (·.2) = jobs := by
  simp [numbered, List.map_map, Function.comp_def]

/-- Books that cover all jobs with a result each. -/
structure Settled (jobs : List Job) (s : Fanout σ) (done : List Done) : Prop where
  places : (done.map fun d => (d.index, d.job)).Perm (numbered jobs)
  results : s.results = done.map fun d => (d.index, d.result)
  judged : s.history.judged = done.map fun d => (d.job, d.result)
  answers : ∀ d ∈ done, d.result.Answers d.job
  short : ∀ d ∈ done, d.result.Short

theorem Accounts.all_done {done : List Done} {lost : List Lost} (h : Accounts g jobs s done lost)
    (he : s.Ended) (hf : s.failure = none) : Settled jobs s done := by
  have hlost : lost = [] := by
    have hnone := h.failure.symm.trans hf
    cases lost with
    | nil => rfl
    | cons l rest => cases hnone
  obtain hsome | ⟨hq, hz⟩ := he
  · rw [hf] at hsome
    cases hsome
  · refine ⟨?_, h.results, h.judged, h.answers, h.short⟩
    simpa [Fanout.places, hq, hz, hlost] using h.places

namespace Settled

variable {done : List Done}

theorem mem_done (h : Settled jobs s done) {i : Nat} {j : Job} (hj : jobs[i]? = some j) :
    ∃ d ∈ done, d.index = i ∧ d.job = j := by
  have hmem := h.places.mem_iff.mpr (mem_numbered.mpr hj)
  obtain ⟨d, hd, he⟩ := List.mem_map.mp hmem
  cases he
  exact ⟨d, hd, rfl, rfl⟩

theorem lookup_result (h : Settled jobs s done) {d : Done} (hd : d ∈ done) :
    s.results.lookup d.index = some d.result := by
  have hnodup : (done.map (·.index)).Nodup := by
    have hp := h.places.map Prod.fst
    rw [numbered_places, List.map_map] at hp
    exact hp.nodup_iff.mpr List.nodup_range
  rw [h.results]
  clear h
  induction done with
  | nil => cases hd
  | cons d' rest ih =>
    simp only [List.map_cons, List.nodup_cons] at hnodup
    simp only [List.map_cons, List.lookup_cons]
    rcases List.mem_cons.mp hd with rfl | hd
    · simp
    · have hne : (d.index == d'.index) = false := by
        refine beq_eq_false_iff_ne.mpr fun he => hnodup.1 ?_
        rw [← he]
        exact List.mem_map_of_mem hd
      rw [hne]
      exact ih hd hnodup.2

theorem mem_inOrder (h : Settled jobs s done) {d : Done} (hd : d ∈ done) :
    d.result ∈ inOrder s.results jobs.length := by
  have hplace : jobs[d.index]? = some d.job :=
    mem_numbered.mp (h.places.mem_iff.mp (List.mem_map.mpr ⟨d, hd, rfl⟩))
  have hlt := (List.getElem?_eq_some_iff.mp hplace).1
  exact List.mem_filterMap.mpr ⟨d.index, List.mem_range.mpr hlt, h.lookup_result hd⟩

theorem forall₂_inOrder {P : Job → Result → Prop} (h : Settled jobs s done)
    (hp : ∀ d ∈ done, P d.job d.result) : List.Forall₂ P jobs (inOrder s.results jobs.length) := by
  have hall : ∀ i j, jobs[i]? = some j → ∃ r, s.results.lookup i = some r ∧ P j r := by
    intro i j hj
    obtain ⟨d, hd, rfl, rfl⟩ := h.mem_done hj
    exact ⟨d.result, h.lookup_result hd, hp d hd⟩
  clear h hp
  induction jobs using List.reverseRecOn with
  | nil => exact .nil
  | append_singleton before j ih =>
    obtain ⟨r, hr, hP⟩ := hall before.length j (by simp)
    have hbefore := ih fun i j' hj' => hall i j' (by
      rw [List.getElem?_append_left (List.getElem?_eq_some_iff.mp hj').1]
      exact hj')
    simp only [inOrder, List.length_append, List.length_singleton, List.range_succ,
      List.filterMap_append, List.filterMap_cons, hr, List.filterMap_nil]
    exact List.rel_append hbefore (.cons hP .nil)

theorem judged_perm (h : Settled jobs s done) : (s.history.judged.map (·.1)).Perm jobs := by
  have hp := h.places.map Prod.snd
  rw [numbered_jobs, List.map_map] at hp
  rw [h.judged, List.map_map]
  exact hp

theorem mem_judged (h : Settled jobs s done) {q : Job × Result} (hq : q ∈ s.history.judged) :
    q.2.Answers q.1 ∧ q.2.Short := by
  rw [h.judged] at hq
  obtain ⟨d, hd, rfl⟩ := List.mem_map.mp hq
  exact ⟨h.answers d hd, h.short d hd⟩

end Settled

/-- The end of a fan-out without failure: each job is done, with what judging it alone comes to. -/
theorem Reaches.settled {source : σ} {now : Float}
    (h : Reaches m g context (start slots source now jobs) s) (he : s.Ended)
    (hf : s.failure = none) :
    ∃ done, Settled jobs s done ∧ ∀ replies, s.history.Follows replies →
      ∀ d ∈ done, g.settle d.job (replies d.job) = .ok d.result.timeless := by
  obtain ⟨done, lost, ha⟩ := h.accounts
  exact ⟨done, ha.all_done he hf, ha.settled⟩

/-- A failure is that of a job, and judging that job alone fails with it. -/
theorem Accounts.failed_job {done : List Done} {lost : List Lost} (h : Accounts g jobs s done lost)
    {f : Failure} (hf : s.failure = some f) {replies : Job → Nat → Reply}
    (hr : s.history.Follows replies) : ∃ j ∈ jobs, g.settle j (replies j) = .error f := by
  have hhead := h.failure.symm.trans hf
  obtain ⟨l, hl, rfl⟩ := Option.map_eq_some_iff.mp hhead
  have hmem : l ∈ lost := List.mem_of_mem_head? hl
  have hplace : (l.index, l.job) ∈ numbered jobs := by
    refine h.places.mem_iff.mp ?_
    exact List.mem_append_right _ (List.mem_map.mpr ⟨l, hmem, rfl⟩)
  exact ⟨l.job, List.mem_of_getElem? (mem_numbered.mp hplace), h.failed replies hr l hmem⟩

theorem Change.reports_eq (h : Change g context s s') : s'.history.reports = s.history.reports := by
  cases h <;> simp

theorem Reaches.reports {s₀ : Fanout σ} (h : Reaches m g context s₀ s) :
    s.history.reports = s₀.history.reports := by
  induction h with
  | refl => rfl
  | tail _ hs ih => exact (Step.change hs).reports_eq.trans ih

end Fanout
end JudgedLint.Lint
