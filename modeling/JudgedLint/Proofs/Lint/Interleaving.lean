import JudgedLint.Lint.Run
import JudgedLint.Proofs.Lint.Judging
import Mathlib.Algebra.Ring.Nat
import Mathlib.Logic.Relation

/-! Every order in which jobs may start and go on.

A step moves any waiting job or any sleeper, at any time, and also after a failure: which one a
scheduler picks is left open, and so is how long a call takes. What holds of every state that steps
reach holds whatever the latencies are. The scheduler of `Fanout.run` is one of those that reach an
end. -/
namespace JudgedLint.Lint.Fanout

open Model (Reply Source RetryOutcome)

variable {σ : Type} {m : Source σ} {g : Judge} {context : Log.Context} {slots : Nat}
  {s s' : Fanout σ}

def Step (m : Source σ) (g : Judge) (context : Log.Context) (s s' : Fanout σ) : Prop :=
  ∃ move now, s.step m g context now move = some s'

def Reaches (m : Source σ) (g : Judge) (context : Log.Context) : Fanout σ → Fanout σ → Prop :=
  Relation.ReflTransGen (Step m g context)

/-- Nothing has to follow: there is a failure, or no job is left. -/
def Ended (s : Fanout σ) : Prop := s.failure.isSome = true ∨ s.queue = [] ∧ s.asleep = []

/-- Everything that a step can do, with the whole state it leads to. -/
inductive Change (g : Judge) (context : Log.Context) (s : Fanout σ) : Fanout σ → Prop where
  /-- The model of a job that starts is not known. -/
  | unknown {before after : List (Nat × Job)} {q : Nat × Job} {e : Model.CatalogError} (now : Float)
      (hq : s.queue = before ++ q :: after) (he : g.modelFor q.2.rule = .error e) :
      Change g context s ⟨before ++ after, s.asleep, s.free, now, s.source, s.results, s.history,
        s.failure.or (some (.catalog e))⟩
  /-- A job takes a free slot and starts with its first call. -/
  | started {before after : List (Nat × Job)} {q : Nat × Job} {z : Sleeper} {reply : Reply}
      (now : Float) (source : σ) (hfree : 0 < s.free)
      (hq : s.queue = before ++ q :: after) (hm : g.modelFor q.2.rule = .ok z.model)
      (hi : z.index = q.1) (hj : z.job = q.2) (ha : z.attempt = 1)
      (hw : z.waiting = .answer reply) :
      Change g context s ⟨before ++ after, s.asleep ++ [z], s.free - 1, now, source, s.results,
        s.history ++ [.called (g.request z.model z.job)], s.failure⟩
  /-- The pause in front of an attempt is over, and the attempt's call begins. -/
  | resumed {before after : List Sleeper} {z z' : Sleeper} {reply : Reply} (now : Float) (source : σ)
      (hz : s.asleep = before ++ z :: after) (hp : z.waiting = .pause)
      (hs : z'.toActive = z.toActive) (ha : z'.attempt = z.attempt)
      (hw : z'.waiting = .answer reply) :
      Change g context s ⟨s.queue, before ++ after ++ [z'], s.free, now, source, s.results,
        s.history ++ [.called (g.request z.model z.job)], s.failure⟩
  /-- A pause follows the answer. -/
  | paused {before after : List Sleeper} {z z' : Sleeper} {reply : Reply} {seconds : Float}
      {note : Log.Record} (now : Float)
      (hz : s.asleep = before ++ z :: after) (hw : z.waiting = .answer reply)
      (hr : Model.retryStep g.policy g.random z.job.label z.attempt (Verdict.ofReply reply) =
        .pause seconds note)
      (hs : z'.toActive = z.toActive) (ha : z'.attempt = z.attempt + 1) (hp : z'.waiting = .pause) :
      Change g context s ⟨s.queue, before ++ after ++ [z'], s.free, now, s.source, s.results,
        s.history ++ .answered z.job z.attempt reply :: noted context z.job [note], s.failure⟩
  /-- The answer ends the job with a failure, and its slot is free again. -/
  | failed {before after : List Sleeper} {z : Sleeper} {reply : Reply} {o : RetryOutcome Verdict}
      {start stop : Float} {f : Failure} (now : Float) (notes : List Log.Record)
      (hz : s.asleep = before ++ z :: after) (hw : z.waiting = .answer reply)
      (hr : Model.retryStep g.policy g.random z.job.label z.attempt (Verdict.ofReply reply) = .stop o)
      (hf : g.ending z.job (Judge.milliseconds start stop) o = .error f) :
      Change g context s ⟨s.queue, before ++ after, s.free + 1, now, s.source, s.results,
        s.history ++ .answered z.job z.attempt reply :: noted context z.job notes,
        s.failure.or (some f)⟩
  /-- The answer ends the job with a result, and its slot is free again. -/
  | judged {before after : List Sleeper} {z : Sleeper} {reply : Reply} {o : RetryOutcome Verdict}
      {start stop : Float} {r : Result} (now : Float) (notes : List Log.Record)
      (hz : s.asleep = before ++ z :: after) (hw : z.waiting = .answer reply)
      (hr : Model.retryStep g.policy g.random z.job.label z.attempt (Verdict.ofReply reply) = .stop o)
      (hf : g.ending z.job (Judge.milliseconds start stop) o = .ok r) :
      Change g context s ⟨s.queue, before ++ after, s.free + 1, now, s.source,
        s.results ++ [(z.index, r)],
        s.history ++ .answered z.job z.attempt reply ::
          (noted context z.job notes ++ [.finished z.job r]), s.failure⟩

theorem split_at_place {α : Type} {l : List α} {place : Nat} {a : α} (h : l[place]? = some a) :
    ∃ before after, l = before ++ a :: after ∧ l.eraseIdx place = before ++ after := by
  obtain ⟨hlt, rfl⟩ := List.getElem?_eq_some_iff.mp h
  refine ⟨l.take place, l.drop (place + 1), ?_, List.eraseIdx_eq_take_drop_succ l place⟩
  rw [List.getElem_cons_drop hlt, List.take_append_drop]

theorem begin_change {before after : List (Nat × Job)} {q : Nat × Job} {now : Float}
    (hfree : 0 < s.free) (hq : s.queue = before ++ q :: after) :
    Change g context s
      ({ s with queue := before ++ after, free := s.free - 1, now }.begin m g q.1 q.2) := by
  simp only [begin]
  cases hm : g.modelFor q.2.rule with
  | error e =>
    simp only [release, Nat.sub_add_cancel hfree]
    exact .unknown now hq hm
  | ok model => exact .started now _ hfree hq hm rfl rfl rfl rfl

theorem conclude_change {before after : List Sleeper} {z : Sleeper} {reply : Reply}
    {o : RetryOutcome Verdict} {now : Float} (hz : s.asleep = before ++ z :: after)
    (hw : z.waiting = .answer reply)
    (hr : Model.retryStep g.policy g.random z.job.label z.attempt (Verdict.ofReply reply) =
      .stop o) :
    Change g context s (({ s with asleep := before ++ after, now }.emit
      [.answered z.job z.attempt reply]).conclude g context z.toActive o) := by
  simp only [conclude]
  split
  · next f hf =>
    exact .failed now [] hz hw hr (by rw [Judge.ending, hf]; rfl)
  · next e notes hf =>
    have h : Change g context s _ := .failed now notes hz hw hr (by rw [Judge.ending, hf]; rfl)
    simpa only [emit, fail, release, List.append_assoc, List.singleton_append] using h
  · next r notes hf =>
    have h : Change g context s _ := .judged now notes hz hw hr (by rw [Judge.ending, hf]; rfl)
    simpa only [emit, release, List.append_assoc, List.singleton_append] using h

theorem wake_change {before after : List Sleeper} {z : Sleeper} {now : Float}
    (hz : s.asleep = before ++ z :: after) :
    Change g context s ({ s with asleep := before ++ after, now }.wake m g context z) := by
  simp only [wake]
  cases hw : z.waiting with
  | pause => exact .resumed now _ hz hw rfl rfl rfl
  | answer reply =>
    simp only [react]
    cases hr : Model.retryStep g.policy g.random z.job.label z.attempt (Verdict.ofReply reply) with
    | stop o => exact conclude_change hz hw hr
    | pause seconds note =>
      let later : Sleeper := ⟨z.toActive, z.attempt + 1, !(0.0 < seconds), Judge.later now seconds, .pause⟩
      have h : Change g context s _ :=
        .paused now hz hw hr (rfl : later.toActive = z.toActive) rfl rfl
      simpa only [emit, sleep, List.append_assoc, List.singleton_append] using h

theorem Step.change (h : Step m g context s s') : Change g context s s' := by
  obtain ⟨move, now, h⟩ := h
  cases move with
  | start place =>
    simp only [step] at h
    split at h
    · next hfree =>
      obtain ⟨q, hq, rfl⟩ := Option.map_eq_some_iff.mp h
      obtain ⟨before, after, hs, he⟩ := split_at_place hq
      rw [he]
      exact begin_change hfree hs
    · cases h
  | wake place =>
    simp only [step] at h
    obtain ⟨z, hz, rfl⟩ := Option.map_eq_some_iff.mp h
    obtain ⟨before, after, hs, he⟩ := split_at_place hz
    rw [he]
    exact wake_change hs

/-- How many steps a sleeper can still make: two for each attempt, of which the last needs one. -/
def sleeperSteps (budget : Nat) (z : Sleeper) : Nat :=
  match z.waiting with
  | .answer _ => 2 * (budget - z.attempt) + 1
  | .pause => 2 * (budget - z.attempt) + 2

def stepsLeft (g : Judge) (s : Fanout σ) : Nat :=
  s.queue.length * (2 * g.policy.budget + 1) +
    (s.asleep.map (sleeperSteps g.policy.budget)).sum

theorem Change.stepsLeft_lt (h : Change g context s s') : s'.stepsLeft g < s.stepsLeft g := by
  cases h with
  | unknown now hq he =>
    simp only [stepsLeft, hq, List.length_append, List.length_cons, Nat.add_mul, Nat.one_mul]
    omega
  | started now source hfree hq hm hi hj ha hw =>
    have hb : 1 ≤ g.policy.budget := Nat.le_max_left _ _
    simp only [stepsLeft, hq, List.length_append, List.length_cons, Nat.add_mul, Nat.one_mul,
      List.map_append, List.sum_append, List.map_singleton, List.sum_singleton, sleeperSteps,
      hw, ha]
    omega
  | resumed now source hz hp hs ha hw =>
    simp only [stepsLeft, hz, List.map_append, List.map_cons, List.map_nil, List.sum_append,
      List.sum_cons, List.sum_nil, sleeperSteps, hp, hw, ha]
    omega
  | paused now hz hw hr hs ha hp =>
    have hb := Model.succ_le_budget_of_pause hr
    simp only [stepsLeft, hz, List.map_append, List.map_cons, List.map_nil, List.sum_append,
      List.sum_cons, List.sum_nil, sleeperSteps, hp, hw, ha]
    omega
  | failed now notes hz hw hr hf =>
    simp only [stepsLeft, hz, List.map_append, List.map_cons, List.sum_append, List.sum_cons,
      sleeperSteps, hw]
    omega
  | judged now notes hz hw hr hf =>
    simp only [stepsLeft, hz, List.map_append, List.map_cons, List.sum_append, List.sum_cons,
      sleeperSteps, hw]
    omega

theorem stepsLeft_start (slots : Nat) (source : σ) (now : Float) (jobs : List Job) :
    (start slots source now jobs).stepsLeft g = steps g jobs := by
  simp [stepsLeft, start, steps]

/-- Every slot is free or held by one started job. -/
def Balanced (slots : Nat) (s : Fanout σ) : Prop := s.free + s.asleep.length = slots

theorem start_balanced (slots : Nat) (source : σ) (now : Float) (jobs : List Job) :
    (start slots source now jobs).Balanced slots := by
  simp [Balanced, start]

/-- A slot is taken when a job starts, kept while the job goes on, and given back once, however the
job ends. -/
theorem Change.balanced (h : Change g context s s') (hb : s.Balanced slots) : s'.Balanced slots := by
  simp only [Balanced] at hb ⊢
  cases h with
  | unknown now hq he => exact hb
  | started now source hfree hq hm hi hj ha hw =>
    simp only [List.length_append, List.length_singleton]
    omega
  | resumed now source hz hp hs ha hw =>
    simp only [hz, List.length_append, List.length_cons, List.length_nil] at hb ⊢
    omega
  | paused now hz hw hr hs ha hp =>
    simp only [hz, List.length_append, List.length_cons, List.length_nil] at hb ⊢
    omega
  | failed now notes hz hw hr hf =>
    simp only [hz, List.length_append, List.length_cons] at hb ⊢
    omega
  | judged now notes hz hw hr hf =>
    simp only [hz, List.length_append, List.length_cons] at hb ⊢
    omega

theorem Reaches.balanced {source : σ} {now : Float} {jobs : List Job}
    (h : Reaches m g context (start slots source now jobs) s) : s.Balanced slots := by
  induction h with
  | refl => exact start_balanced slots source now jobs
  | tail _ hs ih => exact (Step.change hs).balanced ih

theorem earliest_lt : ∀ {zs : List Sleeper}, zs ≠ [] → earliest zs < zs.length
  | [], h => absurd rfl h
  | z :: rest, _ => by
    simp only [earliest]
    split
    · next other hother =>
      have hlt := (List.getElem?_eq_some_iff.mp hother).1
      split <;> simp only [List.length_cons] <;> omega
    · exact Nat.zero_lt_succ _

theorem wakeAt_step (m : Source σ) (g : Judge) (context : Log.Context) {place : Nat}
    (h : place < s.asleep.length) :
    ∃ s', ((s.wakeAt place).bind fun c => s.step m g context c.2 c.1) = some s' := by
  simp [wakeAt, step, List.getElem?_eq_getElem h]

theorem ended_of_next?_eq_none (hslots : 1 ≤ slots) (hb : s.Balanced slots)
    (h : s.next? m g context = none) : s.Ended := by
  simp only [next?, choose] at h
  split at h
  · next hf => exact .inl hf
  · split at h
    · next hready =>
      have hlt : s.asleep.length - 1 < s.asleep.length := by
        cases hz : s.asleep with
        | nil => simp [hz] at hready
        | cons z rest => simp
      obtain ⟨s', hs⟩ := wakeAt_step m g context hlt
      rw [hs] at h
      cases h
    · split at h
      · next hfree =>
        obtain ⟨hq, hpos⟩ := Bool.and_eq_true_iff.mp hfree
        cases hqueue : s.queue with
        | nil => simp [hqueue] at hq
        | cons q rest => simp [step, hqueue, of_decide_eq_true hpos] at h
      · next hfree =>
        cases hz : s.asleep with
        | nil =>
          refine .inr ⟨?_, hz⟩
          cases hqueue : s.queue with
          | nil => rfl
          | cons q rest =>
            -- Nobody holds a slot, so they are all free.
            have hpos : 0 < s.free := by
              simp only [Balanced, hz, List.length_nil] at hb
              omega
            exact absurd (by simp [hqueue, hpos]) hfree
        | cons z rest =>
          have hlt : earliest s.asleep < s.asleep.length := earliest_lt (by simp [hz])
          obtain ⟨s', hs⟩ := wakeAt_step m g context hlt
          rw [hs] at h
          cases h

theorem next?_step (h : s.next? m g context = some s') : Step m g context s s' := by
  obtain ⟨c, _, hc⟩ := Option.bind_eq_some_iff.mp h
  exact ⟨c.1, c.2, hc⟩

theorem runFor_reaches (fuel : Nat) (s : Fanout σ) :
    Reaches m g context s (runFor m g context fuel s) := by
  induction fuel generalizing s with
  | zero => exact .refl
  | succ fuel ih =>
    simp only [runFor]
    split
    · next s' hs => exact .head (next?_step hs) (ih s')
    · exact .refl

theorem sleeperSteps_pos (budget : Nat) (z : Sleeper) : 0 < sleeperSteps budget z := by
  simp only [sleeperSteps]
  split <;> omega

theorem ended_of_stepsLeft_eq_zero (h : s.stepsLeft g = 0) : s.Ended := by
  refine .inr ⟨?_, ?_⟩
  · cases hq : s.queue with
    | nil => rfl
    | cons q rest =>
      simp only [stepsLeft, hq, List.length_cons, Nat.add_mul] at h
      omega
  · cases hz : s.asleep with
    | nil => rfl
    | cons z rest =>
      have hpos := sleeperSteps_pos g.policy.budget z
      simp only [stepsLeft, hz, List.map_cons, List.sum_cons] at h
      omega

theorem runFor_ended (hslots : 1 ≤ slots) (fuel : Nat) (s : Fanout σ) (hb : s.Balanced slots)
    (hfuel : s.stepsLeft g ≤ fuel) : (runFor m g context fuel s).Ended := by
  induction fuel generalizing s with
  | zero => exact ended_of_stepsLeft_eq_zero (Nat.le_zero.mp hfuel)
  | succ fuel ih =>
    simp only [runFor]
    split
    · next s' hs =>
      have hchange := (next?_step hs).change
      have hlt := hchange.stepsLeft_lt
      exact ih s' (hchange.balanced hb) (by omega)
    · next hs => exact ended_of_next?_eq_none hslots hb hs

theorem run_reaches (slots : Nat) (source : σ) (now : Float) (jobs : List Job) :
    Reaches m g context (start slots source now jobs) (run m g context slots source now jobs) :=
  runFor_reaches _ _

theorem run_ended (hslots : 1 ≤ slots) (source : σ) (now : Float) (jobs : List Job) :
    (run m g context slots source now jobs).Ended :=
  runFor_ended hslots _ _ (start_balanced slots source now jobs)
    (Nat.le_of_eq (stepsLeft_start slots source now jobs))

theorem next?_start {q : Nat × Job} {rest : List (Nat × Job)} (hfree : 0 < s.free)
    (hf : s.failure = none) (ha : s.asleep = []) (hq : s.queue = q :: rest) :
    s.next? m g context =
      some ({ s with queue := rest, free := s.free - 1 }.begin m g q.1 q.2) := by
  simp [next?, choose, step, hf, ha, hq, hfree]

theorem next?_wake {z : Sleeper} (hf : s.failure = none) (ha : s.asleep = [z]) (hq : s.queue = []) :
    s.next? m g context = some ({ s with asleep := [], now := z.wake }.wake m g context z) := by
  simp [next?, choose, wakeAt, earliest, step, hf, ha, hq]

theorem next?_idle (hf : s.failure = none) (ha : s.asleep = []) (hq : s.queue = []) :
    s.next? m g context = none := by
  simp [next?, choose, wakeAt, hf, ha, hq]

theorem run_single {source : σ} {now : Float} {j : Job} {model : String} {v : Verdict}
    {response : Model.Response} {source' : σ} (hslots : 1 ≤ slots)
    (hm : g.modelFor j.rule = .ok model)
    (ha : m.ask source (g.request model j) = (response, source'))
    (hv : Verdict.ofReply response.reply = .ok v) :
    ∃ stop, run m g context slots source now [j] = ⟨[], [], slots, stop, source',
      [(0, Judge.result j v (Judge.milliseconds now stop))],
      [.called (g.request model j), .answered j 1 response.reply,
        .finished j (Judge.result j v (Judge.milliseconds now stop))], none⟩ := by
  have hsteps : ∃ more, steps g [j] = more + 2 + 1 := by
    have hb : 1 ≤ g.policy.budget := Nat.le_max_left _ _
    exact ⟨2 * g.policy.budget - 2, by simp only [steps, List.length_singleton]; omega⟩
  obtain ⟨more, hmore⟩ := hsteps
  have hbegun : (start slots source now [j]).next? m g context =
      some ((⟨[], [], slots - 1, now, source, [], [], none⟩ : Fanout σ).begin m g 0 j) :=
    next?_start (s := start slots source now [j]) (q := (0, j)) hslots rfl rfl rfl
  rw [run, hmore, runFor, hbegun]
  simp only [begin, hm, attempt, ha, emit, sleep]
  rw [runFor, next?_wake rfl rfl rfl]
  simp only [wake, react, hv, Model.retryStep, conclude, Judge.conclude, emit, release,
    Nat.sub_add_cancel hslots]
  refine ⟨Judge.later now response.latency, ?_⟩
  rw [runFor, next?_idle rfl rfl rfl]
  rfl

theorem step_wellFounded (m : Source σ) (g : Judge) (context : Log.Context) :
    WellFounded fun s' s : Fanout σ => Step m g context s s' :=
  Subrelation.wf (fun h => h.change.stepsLeft_lt) (measure (stepsLeft g)).wf

end JudgedLint.Lint.Fanout

namespace JudgedLint.Lint.Run

variable {σ : Type} {g : Setting σ} {store : Cache.Store} {paths : List String} {world : World σ}

/-- How a run may go, in whatever order its jobs are judged. -/
inductive Possible (g : Setting σ) (store : Cache.Store) (paths : List String) (world : World σ) :
    Run σ → Prop where
  | unplanned {f : Failure} {history : History} (h : plan g store paths world.tree = .error (f, history)) :
      Possible g store paths world ⟨.error f, history, 0, world⟩
  | planned {p : Plan} {fan : Fanout σ} (h : plan g store paths world.tree = .ok p)
      (hr : Fanout.Reaches g.model g.judge { run := some g.runId }
        (.start g.slots world.source world.now p.unjudged) fan)
      (he : fan.Ended) : Possible g store paths world (finish g p world fan)

theorem run_possible (hslots : 1 ≤ g.slots) : Possible g store paths world (run g store paths world) := by
  simp only [run]
  split
  · next f history h => exact .unplanned h
  · next p h => exact .planned h (Fanout.run_reaches _ _ _ _) (Fanout.run_ended hslots _ _ _)

end JudgedLint.Lint.Run
