import JudgedLint.Proofs.Lint.Config
import JudgedLint.Proofs.Lint.Completeness

/-! Slots. A started job holds one slot until it is over, so no more jobs are judged at a time than
there are slots, whatever the order of the steps; and a job waits for its start only while all slots
are held. The scheduler lets time pass only when nothing can happen without, and since a valid
configuration has a slot at least, it never comes to a stop before all jobs are judged. -/
namespace JudgedLint.Lint

open Model (Source)

/-- The calls that have not come back, and the most there have been. -/
def History.flights (h : History) : Nat × Nat := h.foldl countCall (0, 0)

def History.inFlight (h : History) : Nat := h.flights.1

theorem History.flights_append (h h' : History) :
    flights (h ++ h') = h'.foldl countCall h.flights :=
  List.foldl_append

theorem History.foldl_countCall_noted (context : Log.Context) (j : Job) (rs : List Log.Record)
    (c : Nat × Nat) : (Fanout.noted context j rs).foldl countCall c = c := by
  induction rs with
  | nil => rfl
  | cons r rest ih => exact ih

/-- The sleeper waits for an answer, and not for the end of a pause. -/
def Sleeper.isCalling (z : Sleeper) : Bool :=
  match z.waiting with
  | .answer _ => true
  | .pause => false

namespace Fanout

variable {σ : Type} {m : Source σ} {g : Judge} {context : Log.Context} {slots : Nat}
  {s s' : Fanout σ} {jobs : List Job} {source : σ} {now : Float}

/-! ### Calls in flight -/

/-- Each call in flight is that of a sleeper, and there never were more than slots. -/
structure Calls (slots : Nat) (s : Fanout σ) : Prop where
  inFlight : s.history.inFlight = s.asleep.countP (·.isCalling)
  peak : s.history.peak ≤ slots

theorem start_calls (slots : Nat) (source : σ) (now : Float) (jobs : List Job) :
    (start slots source now jobs).Calls slots :=
  ⟨rfl, Nat.zero_le _⟩

theorem Calls.called {asleep : List Sleeper} {z : Sleeper} {reply : Model.Reply} (h : s.Calls slots)
    (hcalling : s.asleep.countP (·.isCalling) = asleep.countP (·.isCalling))
    (hroom : asleep.length < slots) (hw : z.waiting = .answer reply) {queue : List (Nat × Job)}
    {free : Nat} {now : Float} {source : σ} (request : Model.Request) :
    Calls slots ⟨queue, asleep ++ [z], free, now, source, s.results,
      s.history ++ [.called request], s.failure⟩ := by
  have hflight := h.inFlight
  have hpeak := h.peak
  have hle : asleep.countP (·.isCalling) ≤ asleep.length := List.countP_le_length
  have hz : z.isCalling = true := by simp only [Sleeper.isCalling, hw]
  unfold History.inFlight at hflight
  constructor
  · simp only [History.inFlight, History.flights_append, List.foldl_cons, List.foldl_nil,
      History.countCall, List.countP_append, List.countP_singleton, hz, if_true]
    omega
  · simp only [History.peak, List.foldl_append, List.foldl_cons, List.foldl_nil, History.countCall]
    simp only [History.flights] at hflight
    simp only [History.peak] at hpeak
    omega

theorem Calls.answered {before after : List Sleeper} {z : Sleeper} {reply : Model.Reply}
    (h : s.Calls slots) (hz : s.asleep = before ++ z :: after) (hw : z.waiting = .answer reply)
    {es : History} (hes : ∀ c, es.foldl History.countCall c = c) {asleep : List Sleeper}
    (hasleep : asleep.countP (·.isCalling) = (before ++ after).countP (·.isCalling))
    {queue : List (Nat × Job)} {free : Nat} {now : Float} {source : σ}
    {results : List (Nat × Result)} {failure : Option Failure} :
    Calls slots ⟨queue, asleep, free, now, source, results,
      s.history ++ .answered z.job z.attempt reply :: es, failure⟩ := by
  have hflight := h.inFlight
  have hpeak := h.peak
  have hcalling : z.isCalling = true := by simp only [Sleeper.isCalling, hw]
  simp only [hz, List.countP_append, List.countP_cons, hcalling, if_true] at hflight
  unfold History.inFlight at hflight
  constructor
  · simp only [History.inFlight, History.flights_append, List.foldl_cons, History.countCall, hes,
      hasleep, List.countP_append]
    omega
  · simpa only [History.peak, List.foldl_append, List.foldl_cons, History.countCall, hes] using hpeak

theorem Change.calls (h : Change g context s s') (hb : s.Balanced slots) (hc : s.Calls slots) :
    s'.Calls slots := by
  unfold Balanced at hb
  cases h with
  | unknown now hq he => exact ⟨hc.inFlight, hc.peak⟩
  | started now source hfree hq hm hi hj ha hw =>
    exact hc.called rfl (by omega) hw _
  | resumed now source hz hp hs ha hw =>
    refine hc.called ?_ ?_ hw _
    · simp [hz, Sleeper.isCalling, hp]
    · simp only [hz, List.length_append, List.length_cons] at hb ⊢
      omega
  | paused now hz hw hr hs ha hp =>
    refine hc.answered hz hw (History.foldl_countCall_noted _ _ _) ?_
    simp [Sleeper.isCalling, hp]
  | failed now notes hz hw hr hf =>
    exact hc.answered hz hw (History.foldl_countCall_noted _ _ _) rfl
  | judged now notes hz hw hr hf =>
    refine hc.answered hz hw (fun c => ?_) rfl
    rw [List.foldl_append, History.foldl_countCall_noted]
    rfl

theorem Reaches.calls (h : Reaches m g context (start slots source now jobs) s) : s.Calls slots := by
  induction h with
  | refl => exact start_calls slots source now jobs
  | tail hr hs ih => exact (Step.change hs).calls (Reaches.balanced hr) ih

/-! ### Time passes only when nothing can happen without -/

/-- Every started job waits for a time to come, and no waiting job can start. -/
structure Resting (s : Fanout σ) : Prop where
  asleep : ∀ z ∈ s.asleep, z.ready = false
  full : s.queue = [] ∨ s.free = 0

theorem Balanced.full (hb : s.Balanced slots) (hfree : s.free = 0) : s.asleep.length = slots := by
  unfold Balanced at hb
  omega

/-- While all started jobs wait for a time to come, a waiting job starts at once, or all slots are
held. -/
theorem Balanced.starts_or_full (hb : s.Balanced slots) (hf : s.failure = none)
    (hz : ∀ z ∈ s.asleep, z.ready = false) (hq : s.queue ≠ []) :
    s.choose = some (.start 0, s.now) ∨ s.asleep.length = slots := by
  by_cases hfree : 0 < s.free
  · left
    have hlast : ¬s.asleep.getLast?.any (·.ready) = true := by
      cases hlast : s.asleep.getLast? with
      | none => simp
      | some z => simp [hz z (List.mem_of_getLast? hlast)]
    have hqueue : s.queue.isEmpty = false := by simpa using hq
    unfold choose
    rw [if_neg (by simp [hf]), if_neg hlast, if_pos (by simp [hqueue, hfree])]
  · right
    exact hb.full (Nat.eq_zero_of_not_pos hfree)

def untouched (s : Fanout σ) : Move → List Sleeper
  | .start _ => s.asleep
  | .wake place => s.asleep.eraseIdx place

/-- One job at most falls asleep at a step, behind all others. -/
theorem step_asleep {move : Move} {moment : Float} (h : s.step m g context moment move = some s') :
    s'.asleep = s.untouched move ∨ ∃ z, s'.asleep = s.untouched move ++ [z] := by
  cases move with
  | start place =>
    unfold step at h
    dsimp only at h
    split at h
    · obtain ⟨q, _, rfl⟩ := Option.map_eq_some_iff.mp h
      unfold begin
      split
      · exact .inl rfl
      · exact .inr ⟨_, rfl⟩
    · cases h
  | wake place =>
    obtain ⟨z, _, rfl⟩ := Option.map_eq_some_iff.mp h
    unfold wake
    split
    · exact .inr ⟨_, rfl⟩
    · unfold react
      dsimp only
      split
      · unfold conclude
        dsimp only
        split <;> exact .inl rfl
      · exact .inr ⟨_, rfl⟩

/-- Only the job that fell asleep last may be one for which no time has to pass. -/
def Drowsy (s : Fanout σ) : Prop := ∀ z ∈ s.asleep.dropLast, z.ready = false

def Next (m : Source σ) (g : Judge) (context : Log.Context) (s s' : Fanout σ) : Prop :=
  s.next? m g context = some s'

def Proceeds (m : Source σ) (g : Judge) (context : Log.Context) : Fanout σ → Fanout σ → Prop :=
  Relation.ReflTransGen (Next m g context)

theorem Drowsy.asleep (h : s.Drowsy) (hlast : ¬s.asleep.getLast?.any (·.ready) = true) :
    ∀ z ∈ s.asleep, z.ready = false := by
  intro z hz
  rcases List.eq_nil_or_concat s.asleep with hnil | ⟨before, last, heq⟩
  · rw [hnil] at hz
    cases hz
  · rw [List.concat_eq_append] at heq
    unfold Drowsy at h
    rw [heq, List.dropLast_concat] at h
    rw [heq, List.getLast?_concat, Option.any_some, Bool.not_eq_true] at hlast
    rw [heq, List.mem_append, List.mem_singleton] at hz
    rcases hz with hz | rfl
    · exact h z hz
    · exact hlast

theorem Drowsy.rests (h : s.Drowsy) {place : Nat} {moment : Float} {z : Sleeper}
    (hc : s.choose = some (.wake place, moment)) (hz : s.asleep[place]? = some z)
    (hready : z.ready = false) : s.Resting := by
  unfold choose at hc
  split at hc
  · cases hc
  · split at hc
    · next hlast =>
      obtain ⟨last, hlast', heq⟩ := Option.map_eq_some_iff.mp hc
      cases heq
      rw [List.getLast?_eq_getElem?, hz, Option.any_some, hready] at hlast
      cases hlast
    · next hlast =>
      split at hc
      · cases hc
      · next hfull =>
        refine ⟨h.asleep hlast, ?_⟩
        simp only [Bool.and_eq_true, Bool.not_eq_true', decide_eq_true_eq, not_and,
          Nat.not_lt, Nat.le_zero] at hfull
        cases hq : s.queue with
        | nil => exact .inl rfl
        | cons q rest => exact .inr (hfull (by rw [hq]; rfl))

theorem Drowsy.next (h : s.Drowsy) (hn : Next m g context s s') : s'.Drowsy := by
  obtain ⟨⟨move, moment⟩, hc, hs⟩ := Option.bind_eq_some_iff.mp hn
  -- Whoever is left untouched waits for a time to come: the ready one, if any, is the one woken.
  have huntouched : ∀ z ∈ s.untouched move, z.ready = false := by
    unfold choose at hc
    split at hc
    · cases hc
    · split at hc
      · obtain ⟨last, _, heq⟩ := Option.map_eq_some_iff.mp hc
        cases heq
        rw [untouched, List.eraseIdx_length_sub_one]
        exact h
      · next hlast =>
        have hall := h.asleep hlast
        split at hc
        · cases hc
          exact hall
        · obtain ⟨z, _, heq⟩ := Option.map_eq_some_iff.mp hc
          cases heq
          intro z hz
          exact hall z (List.mem_of_mem_eraseIdx hz)
  intro z hz
  rcases step_asleep hs with heq | ⟨new, heq⟩
  · rw [heq] at hz
    exact huntouched z (List.dropLast_subset _ hz)
  · rw [heq, List.dropLast_concat] at hz
    exact huntouched z hz

theorem Proceeds.drowsy (h : Proceeds m g context (start slots source now jobs) s) : s.Drowsy := by
  induction h with
  | refl =>
    intro z hz
    cases hz
  | tail _ hn ih => exact ih.next hn

theorem Proceeds.reaches (h : Proceeds m g context s s') : Reaches m g context s s' := by
  induction h with
  | refl => exact .refl
  | tail _ hn ih => exact .tail ih (next?_step hn)

/-! ### The scheduler comes to an end -/

theorem exists_next (hslots : 1 ≤ slots) (hb : s.Balanced slots) (hf : s.failure = none)
    (hleft : s.queue ≠ [] ∨ s.asleep ≠ []) : ∃ s', Next m g context s s' := by
  cases hn : s.next? m g context with
  | some s' => exact ⟨s', hn⟩
  | none =>
    rcases ended_of_next?_eq_none hslots hb hn with hfail | ⟨hq, hz⟩
    · rw [hf] at hfail
      cases hfail
    · exact absurd hleft (by simp [hq, hz])

theorem runFor_proceeds (fuel : Nat) (s : Fanout σ) :
    Proceeds m g context s (runFor m g context fuel s) := by
  induction fuel generalizing s with
  | zero => exact .refl
  | succ fuel ih =>
    unfold runFor
    split
    · next s' hs => exact .head hs (ih s')
    · exact .refl

theorem exists_end (hslots : 1 ≤ slots) (hb : s.Balanced slots) :
    ∃ s', Proceeds m g context s s' ∧ s'.Ended :=
  ⟨_, runFor_proceeds (s.stepsLeft g) s, runFor_ended hslots _ s hb (Nat.le_refl _)⟩

/-- What holds of a state of a fan-out, in whatever order its jobs have started and gone on. -/
structure Orderly (m : Source σ) (g : Judge) (context : Log.Context) (slots : Nat) (jobs : List Job)
    (s : Fanout σ) : Prop where
  judging : s.asleep.length ≤ slots
  inFlight : s.history.inFlight = s.asleep.countP (·.isCalling)
  peak : s.history.peak ≤ slots
  balanced : s.Balanced slots
  full : s.failure = none → (∀ z ∈ s.asleep, z.ready = false) → s.queue ≠ [] →
    s.choose = some (.start 0, s.now) ∨ s.asleep.length = slots
  next : s.failure = none → s.queue ≠ [] ∨ s.asleep ≠ [] → ∃ s', Next m g context s s'
  ends : ∃ s', Proceeds m g context s s' ∧ s'.Ended
  judged : s.Ended → s.failure = none → (s.history.judged.map (·.1)).Perm jobs

/-- Under a valid configuration no more jobs are judged at a time than it allows, and no more calls
are in flight; a free slot is given to a waiting job before any time passes; the next step never
lacks, and at the end each job was judged once, unless there was a failure. -/
theorem Reaches.bounded_and_live {catalog : Model.Catalog} {raw : Datum} {c : Config}
    (hc : Config.validate catalog raw = .ok c)
    (h : Reaches m g context (start c.concurrency source now jobs) s) :
    Orderly m g context c.concurrency jobs s ∧
      (Proceeds m g context (start c.concurrency source now jobs) s → ∀ place moment z,
        s.choose = some (.wake place, moment) → s.asleep[place]? = some z → z.ready = false →
        (∀ z ∈ s.asleep, z.ready = false) ∧ (s.queue ≠ [] → s.asleep.length = c.concurrency)) := by
  obtain ⟨hslots, _⟩ := Config.concurrency_bounds hc
  have hb := h.balanced
  have hcalls := h.calls
  constructor
  · refine ⟨?_, hcalls.inFlight, hcalls.peak, hb, hb.starts_or_full, exists_next hslots hb,
      exists_end hslots hb, fun he hf => ?_⟩
    · unfold Balanced at hb
      omega
    · obtain ⟨done, hdone, _⟩ := h.settled he hf
      exact hdone.judged_perm
  · intro hp place moment z hchoose hz hready
    have hrests := hp.drowsy.rests hchoose hz hready
    exact ⟨hrests.asleep, fun hq => hb.full (hrests.full.resolve_left hq)⟩

end Fanout

namespace Sample

def raw : Datum :=
  .map [(.str "provider", .str "ollama"), (.str "model", .str "llama3"), (.str "concurrency", .int 1),
    (.str "rules", .list [(rule .error).toDatum])]

def config : Config := ⟨.ollama, some Config.localUrl, "llama3", 1, "main", [rule .error]⟩

def two : List Job := [job .error, .of (rule .error) "b.py" "q"]

/-- One job is judged while another one waits. -/
theorem bounded_and_live_two : Config.validate .default raw = .ok config ∧
    ∃ s, Fanout.Reaches (setting .error 1 0.5).model (setting .error 1 0.5).judge {}
        (.start config.concurrency () 0 two) s ∧
      s.asleep.length = 1 ∧ s.queue.length = 1 ∧
      Fanout.Orderly (setting .error 1 0.5).model (setting .error 1 0.5).judge {} 1 two s := by
  have hvalid : Config.validate .default raw = .ok config := by decide
  have hreaches := Relation.ReflTransGen.single (r := Fanout.Step (setting .error 1 0.5).model
    (setting .error 1 0.5).judge {}) (a := .start config.concurrency () 0 two) ⟨.start 0, 0, rfl⟩
  exact ⟨hvalid, _, hreaches, rfl, rfl, (Fanout.Reaches.bounded_and_live hvalid hreaches).1⟩

end Sample

end JudgedLint.Lint
