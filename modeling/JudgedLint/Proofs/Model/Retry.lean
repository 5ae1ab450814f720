import JudgedLint.Model.Retry

/-! Retried calls: a pause is made only while attempts are left, so a retried call ends with the
first attempt that is not followed by a pause. What a pause and an end say of their attempt is said
here once, and what the policy says of all attempts follows from it. -/
namespace JudgedLint.Model

variable {α : Type} {p : RetryPolicy} {random : Float} {label : String}

theorem succ_le_budget_of_pause {attempt : Nat} {reply : Except CallError α} {seconds : Float}
    {note : Log.Record} (h : retryStep p random label attempt reply = .pause seconds note) :
    attempt + 1 ≤ p.budget := by
  have hlt := lt_maxAttempts_of_pause h
  simp only [RetryPolicy.budget]
  omega

theorem reply_of_stop_value {attempt : Nat} {reply : Except CallError α} {a : α}
    (h : retryStep p random label attempt reply = .stop (.value a)) : reply = .ok a := by
  cases reply with
  | ok b =>
    cases h
    rfl
  | error e =>
    simp only [retryStep] at h
    split at h <;> cases h

/-- A failure of this class is the last: another attempt would not help, or none is left. -/
def RetryPolicy.IsFinal (p : RetryPolicy) (attempt : Nat) (cls : ErrorClass) : Prop :=
  cls ∉ p.retryable ∨ p.maxAttempts ≤ attempt

/-- Every pause that the attempts may need can be computed and is finite. -/
def RetryPolicy.Timed (p : RetryPolicy) (random : Float) : Prop :=
  ∀ attempt : Nat, 1 ≤ attempt → (attempt : Int) < p.maxAttempts →
    ∃ d, p.delay random attempt = .ok d ∧ d.isFinite = true

/-- The same for numbers that differ from pause to pause. -/
def RetryPolicy.TimedBy (p : RetryPolicy) (draws : Nat → Float) : Prop :=
  ∀ attempt : Nat, 1 ≤ attempt → (attempt : Int) < p.maxAttempts →
    ∃ d, p.delay (draws attempt) attempt = .ok d ∧ d.isFinite = true

/-- What a pause says of its attempt: it failed in a way that another one may help against. -/
theorem pause_cases {attempt : Nat} {reply : Except CallError α} {seconds : Float}
    {note : Log.Record} (h : retryStep p random label attempt reply = .pause seconds note) :
    ∃ e, reply = .error e ∧ ErrorClass.ofError e ∈ p.retryable ∧ ErrorClass.ofError e ≠ .auth := by
  cases reply with
  | ok a => simp [retryStep] at h
  | error e =>
    refine ⟨e, rfl, ?_⟩
    by_cases hauth : ErrorClass.ofError e = .auth
    · simp [retryStep, Model.decide, hauth] at h
    by_cases hmem : ErrorClass.ofError e ∈ p.retryable
    · exact ⟨hmem, hauth⟩
    · simp [retryStep, Model.decide, hauth, hmem] at h

inductive Stops (p : RetryPolicy) (random : Float) (label : String) (attempt : Nat) :
    Except CallError α → RetryOutcome α → Prop where
  | value (a : α) : Stops p random label attempt (.ok a) (.value a)
  | rejected {e : CallError} (e' : CallError) (hauth : ErrorClass.ofError e = .auth) :
      Stops p random label attempt (.error e) (.rejected e')
  | exhausted {e : CallError} (hauth : ErrorClass.ofError e ≠ .auth)
      (hfinal : p.IsFinal attempt (ErrorClass.ofError e)) :
      Stops p random label attempt (.error e) (.exhausted ⟨label, ErrorClass.ofError e, attempt, e⟩)
  | noDelay {e : CallError} {f : RetryPolicy.DelayError} (hleft : (attempt : Int) < p.maxAttempts)
      (hdelay : p.delay random attempt = .error f) :
      Stops p random label attempt (.error e) (.noDelay f)

theorem stops_of_stop {attempt : Nat} {reply : Except CallError α} {o : RetryOutcome α}
    (h : retryStep p random label attempt reply = .stop o) :
    Stops p random label attempt reply o := by
  cases reply with
  | ok a =>
    cases h
    exact .value a
  | error e =>
    by_cases hauth : ErrorClass.ofError e = .auth
    · simp only [retryStep, Model.decide, hauth, beq_self_eq_true, if_true] at h
      cases h
      exact .rejected _ hauth
    by_cases hfinal : p.IsFinal attempt (ErrorClass.ofError e)
    · have hcond : (!p.retryable.contains (ErrorClass.ofError e) ||
          Decidable.decide (p.maxAttempts ≤ attempt)) = true := by
        simpa [RetryPolicy.IsFinal] using hfinal
      simp only [retryStep, Model.decide, beq_eq_false_iff_ne.mpr hauth, hcond, if_true,
        Bool.false_eq_true, if_false] at h
      cases h
      exact .exhausted hauth hfinal
    · obtain ⟨hmem, hleft⟩ : ErrorClass.ofError e ∈ p.retryable ∧ (attempt : Int) < p.maxAttempts := by
        simpa [RetryPolicy.IsFinal] using hfinal
      cases hdelay : p.delay random attempt with
      | ok d => simp [retryStep, Model.decide, hauth, hmem, Int.not_le.mpr hleft, hdelay] at h
      | error f =>
        simp only [retryStep, Model.decide, beq_eq_false_iff_ne.mpr hauth,
          List.contains_iff_mem.mpr hmem, Int.not_le.mpr hleft, hdelay, Bool.false_eq_true, if_false,
          Bool.not_true, Bool.false_or, decide_false] at h
        cases h
        exact .noDelay hleft hdelay

theorem Stops.auth_or_final (hd : p.Timed random) {attempt : Nat} (h1 : 1 ≤ attempt) {e : CallError}
    {o : RetryOutcome α} (h : Stops p random label attempt (.error e) o) :
    ErrorClass.ofError e = .auth ∨ p.IsFinal attempt (ErrorClass.ofError e) := by
  cases h with
  | rejected e' hauth => exact .inl hauth
  | exhausted hauth hfinal => exact .inr hfinal
  | noDelay hleft hdelay =>
    obtain ⟨d, hd, _⟩ := hd attempt h1 hleft
    cases hd.symm.trans hdelay

/-- Each attempt from `first` on and before `last` is followed by a pause. -/
def Pauses (p : RetryPolicy) (draws : Nat → Float) (label : String)
    (call : Nat → Except CallError α) (first last : Nat) : Prop :=
  ∀ k, first ≤ k → k < last →
    ∃ seconds note, retryStep p (draws k) label k (call k) = .pause seconds note

namespace Pauses

variable {draws : Nat → Float} {call : Nat → Except CallError α} {first last : Nat}

theorem refl (n : Nat) : Pauses p draws label call n n := by
  intro k hk hlt
  omega

theorem cons (h : Pauses p draws label call (first + 1) last) {seconds : Float} {note : Log.Record}
    (hp : retryStep p (draws first) label first (call first) = .pause seconds note) :
    Pauses p draws label call first last := by
  intro k hk hlt
  rcases Nat.eq_or_lt_of_le hk with rfl | hk
  · exact ⟨seconds, note, hp⟩
  · exact h k hk hlt

theorem snoc (h : Pauses p draws label call first last) {seconds : Float} {note : Log.Record}
    (hp : retryStep p (draws last) label last (call last) = .pause seconds note) :
    Pauses p draws label call first (last + 1) := by
  intro k hk hlt
  rcases Nat.lt_succ_iff_lt_or_eq.mp hlt with hlt | rfl
  · exact h k hk hlt
  · exact ⟨seconds, note, hp⟩

theorem le_budget (h : Pauses p draws label call 1 last) : last ≤ p.budget := by
  rcases Nat.lt_or_ge 1 last with hlt | hle
  · obtain ⟨seconds, note, hp⟩ := h (last - 1) (by omega) (by omega)
    have := succ_le_budget_of_pause hp
    omega
  · simp only [RetryPolicy.budget]
    omega

end Pauses

section

variable {draws : Nat → Float} {call : Nat → Except CallError α} {first : Nat}

theorem retryFrom_of_stop {o : RetryOutcome α}
    (h : retryStep p (draws first) label first (call first) = .stop o) :
    retryFrom p draws label call first = ⟨o, first, [], []⟩ := by
  rw [retryFrom]
  split
  · next o' ho =>
    cases ho.symm.trans h
    rfl
  · next hp => cases hp.symm.trans h

theorem retryFrom_of_pause {seconds : Float} {note : Log.Record}
    (h : retryStep p (draws first) label first (call first) = .pause seconds note) :
    retryFrom p draws label call first =
      { retryFrom p draws label call (first + 1) with
        pauses := seconds :: (retryFrom p draws label call (first + 1)).pauses
        notes := note :: (retryFrom p draws label call (first + 1)).notes } := by
  rw [retryFrom]
  split
  · next ho => cases ho.symm.trans h
  · next hp =>
    cases hp.symm.trans h
    rfl

/-- The loop stops: a retried call comes to an attempt that is followed by no pause, and ends as that
one does. -/
theorem retryFrom_ends (p : RetryPolicy) (draws : Nat → Float) (label : String)
    (call : Nat → Except CallError α) (first : Nat) :
    let run := retryFrom p draws label call first
    first ≤ run.attempts ∧ Pauses p draws label call first run.attempts ∧
      retryStep p (draws run.attempts) label run.attempts (call run.attempts) =
        .stop run.outcome := by
  induction first using retryFrom.induct p draws label call with
  | case1 first o hs =>
    rw [retryFrom_of_stop hs]
    exact ⟨Nat.le_refl _, .refl first, hs⟩
  | case2 first seconds note hp ih =>
    rw [retryFrom_of_pause hp]
    obtain ⟨hle, hpauses, hstop⟩ := ih
    exact ⟨Nat.le_of_succ_le hle, hpauses.cons hp, hstop⟩

end

theorem retryDrawn_ends (p : RetryPolicy) (draws : Nat → Float) (label : String)
    (call : Nat → Except CallError α) : ∃ last, 1 ≤ last ∧ last ≤ p.budget ∧
      Pauses p draws label call 1 last ∧ (retryDrawn p draws label call).attempts = last ∧
      Stops p (draws last) label last (call last) (retryDrawn p draws label call).outcome := by
  obtain ⟨h1, hp, hstop⟩ := retryFrom_ends p draws label call 1
  exact ⟨_, h1, hp.le_budget, hp, rfl, stops_of_stop hstop⟩

theorem retry_outcome_of_stop {call : Nat → Except CallError α} {last : Nat} {o : RetryOutcome α}
    (h1 : 1 ≤ last) (hp : Pauses p (fun _ => random) label call 1 last)
    (hs : retryStep p random label last (call last) = .stop o) :
    (retry p random label call).outcome = o := by
  obtain ⟨h1', hp', hstop⟩ := retryFrom_ends p (fun _ => random) label call 1
  obtain hlt | heq | hgt := Nat.lt_trichotomy (retry p random label call).attempts last
  · obtain ⟨_, _, hpause⟩ := hp _ h1' hlt
    cases hpause.symm.trans hstop
  · rw [← heq] at hs
    exact (RetryStep.stop.inj (hs.symm.trans hstop)).symm
  · obtain ⟨_, _, hpause⟩ := hp' _ h1 hgt
    cases hpause.symm.trans hs

/-! ### The loop and its policy -/

/-- The pauses that the attempts may need can be computed. -/
def RetryPolicy.Representable (p : RetryPolicy) (draws : Nat → Float) : Prop :=
  ∀ k : Nat, 1 ≤ k → (k : Int) < p.maxAttempts → ∃ d, p.delay (draws k) k = .ok d

/-- No attempt follows this one: it succeeds, its failure rejects the credential or is of a class
that is not repeated, or it is the last of the budget. -/
def RetryPolicy.IsLast (p : RetryPolicy) (attempt : Nat) : Except CallError α → Prop
  | .ok _ => True
  | .error e => ErrorClass.ofError e = .auth ∨ ErrorClass.ofError e ∉ p.retryable ∨
      (attempt : Int) = max 1 p.maxAttempts

def lastOutcome (label : String) (attempt : Nat) : Except CallError α → RetryOutcome α
  | .ok a => .value a
  | .error e =>
    if ErrorClass.ofError e = .auth then
      .rejected (if e.family = .authentication then e else CallError.authentication e.text)
    else .exhausted ⟨label, ErrorClass.ofError e, attempt, e⟩

/-- Attempts from `first` on, as the policy has them. -/
structure RetryRun.Obeys (p : RetryPolicy) (draws : Nat → Float) (label : String)
    (call : Nat → Except CallError α) (first : Nat) (run : RetryRun α) : Prop where
  first_le : first ≤ run.attempts
  within : (run.attempts : Int) ≤ max 1 p.maxAttempts
  last : p.IsLast run.attempts (call run.attempts)
  earlier : ∀ k, first ≤ k → k < run.attempts → ¬p.IsLast k (call k)
  pauses : run.pauses.map .ok =
    (List.range' first (run.attempts - first)).map fun k => p.delay (draws k) k
  outcome : run.outcome = lastOutcome label run.attempts (call run.attempts)

section

variable {draws : Nat → Float} {call : Nat → Except CallError α}

theorem retryStep_of_isLast {attempt : Nat} {reply : Except CallError α}
    (h : p.IsLast attempt reply) :
    retryStep p random label attempt reply = .stop (lastOutcome label attempt reply) := by
  cases reply with
  | ok a => rfl
  | error e =>
    by_cases hauth : ErrorClass.ofError e = .auth
    · simp [retryStep, Model.decide, lastOutcome, hauth]
    · have hgiveUp : ErrorClass.ofError e ∉ p.retryable ∨ p.maxAttempts ≤ attempt := by
        rcases h with h | h | h
        · exact absurd h hauth
        · exact .inl h
        · exact .inr (h ▸ Int.le_max_right _ _)
      simp [retryStep, Model.decide, lastOutcome, hauth, hgiveUp]

theorem retryStep_of_not_isLast (label : String) {attempt : Nat} {reply : Except CallError α}
    (hd : p.Representable draws) (h1 : 1 ≤ attempt) (hle : (attempt : Int) ≤ max 1 p.maxAttempts)
    (h : ¬p.IsLast attempt reply) : (attempt : Int) < p.maxAttempts ∧
      ∃ seconds note, p.delay (draws attempt) attempt = .ok seconds ∧
        retryStep p (draws attempt) label attempt reply = .pause seconds note := by
  cases reply with
  | ok a => exact absurd trivial h
  | error e =>
    simp only [RetryPolicy.IsLast, not_or, Classical.not_not] at h
    obtain ⟨hauth, hmem, hleft⟩ := h
    have hlt : (attempt : Int) < p.maxAttempts := by omega
    obtain ⟨seconds, hdelay⟩ := hd attempt h1 hlt
    refine ⟨hlt, seconds, retryRecord p label attempt (ErrorClass.ofError e) seconds, hdelay, ?_⟩
    simp [retryStep, Model.decide, hauth, hmem, Int.not_le.mpr hlt, hdelay]

theorem RetryRun.Obeys.of_isLast {first : Nat} (hle : (first : Int) ≤ max 1 p.maxAttempts)
    (h : p.IsLast first (call first)) :
    Obeys p draws label call first ⟨lastOutcome label first (call first), first, [], []⟩ where
  first_le := Nat.le_refl first
  within := hle
  last := h
  earlier k hk hlt := absurd hlt (Nat.not_lt.mpr hk)
  pauses := by simp
  outcome := rfl

theorem RetryRun.Obeys.cons {first : Nat} {run : RetryRun α}
    (h : Obeys p draws label call (first + 1) run) (hnot : ¬p.IsLast first (call first))
    {seconds : Float} (hdelay : p.delay (draws first) first = .ok seconds) (note : Log.Record) :
    Obeys p draws label call first
      { run with pauses := seconds :: run.pauses, notes := note :: run.notes } where
  first_le := Nat.le_of_succ_le h.first_le
  within := h.within
  last := h.last
  earlier k hk hlt := by
    rcases Nat.eq_or_lt_of_le hk with rfl | hk
    · exact hnot
    · exact h.earlier k hk hlt
  pauses := by
    obtain ⟨n, hn⟩ := Nat.exists_eq_add_of_le h.first_le
    have hrest := h.pauses
    simp only [hn, Nat.add_sub_cancel_left, show first + 1 + n - first = n + 1 by omega] at hrest ⊢
    rw [List.range'_succ, List.map_cons, List.map_cons, hrest, hdelay]
  outcome := h.outcome

theorem retryFrom_obeys (hd : p.Representable draws) {first : Nat} (h1 : 1 ≤ first)
    (hle : (first : Int) ≤ max 1 p.maxAttempts) :
    (retryFrom p draws label call first).Obeys p draws label call first := by
  induction first using retryFrom.induct p draws label call with
  | case1 first o hs =>
    have hlast : p.IsLast first (call first) := by
      refine Classical.byContradiction fun hnot => ?_
      obtain ⟨_, _, _, _, hp⟩ := retryStep_of_not_isLast label hd h1 hle hnot
      cases hp.symm.trans hs
    rw [retryFrom_of_stop (retryStep_of_isLast hlast)]
    exact .of_isLast hle hlast
  | case2 first seconds note hp ih =>
    have hnot : ¬p.IsLast first (call first) := by
      intro hlast
      cases hp.symm.trans (retryStep_of_isLast hlast)
    obtain ⟨hlt, seconds', note', hdelay, hp'⟩ :=
      retryStep_of_not_isLast label hd h1 hle hnot
    cases hp.symm.trans hp'
    rw [retryFrom_of_pause hp]
    exact (ih (by omega) (by omega)).cons hnot hdelay note

theorem retryFrom_congr {call' : Nat → Except CallError α} {first : Nat}
    (h : ∀ k, first ≤ k → k ≤ (retryFrom p draws label call first).attempts → call' k = call k) :
    retryFrom p draws label call' first = retryFrom p draws label call first := by
  induction first using retryFrom.induct p draws label call with
  | case1 first o hs =>
    rw [retryFrom_of_stop hs] at h ⊢
    rw [← h first (Nat.le_refl _) (Nat.le_refl _)] at hs
    exact retryFrom_of_stop hs
  | case2 first seconds note hp ih =>
    have hrest := (retryFrom_ends p draws label call (first + 1)).1
    rw [retryFrom_of_pause hp] at h ⊢
    have hrun := ih fun k hk hle => h k (Nat.le_of_succ_le hk) hle
    rw [← h first (Nat.le_refl _) (Nat.le_of_succ_le hrest)] at hp
    rw [retryFrom_of_pause hp, hrun]

/-- The loop, whatever the attempts come to: it ends within the budget, with the first attempt that
succeeds, rejects the credential, fails in a class that is not repeated or is the last; before that
it pauses once behind each attempt, for as long as the policy has it; and it ends with what that
attempt makes of it. Attempts behind that one are not made. -/
theorem retryDrawn_obeys (p : RetryPolicy) (draws : Nat → Float) (label : String)
    (call : Nat → Except CallError α) (hd : p.Representable draws) :
    let run := retryDrawn p draws label call
    run.Obeys p draws label call 1 ∧
      ∀ call', (∀ k, 1 ≤ k → k ≤ run.attempts → call' k = call k) →
        retryDrawn p draws label call' = run :=
  ⟨retryFrom_obeys hd (Nat.le_refl 1) (Int.le_max_left _ _), fun _ h => retryFrom_congr h⟩

end

namespace Sample

/-- Two attempts, and a pause whose factor is beyond all floats. -/
def twice : RetryPolicy := { maxAttempts := 2, backoffFactor := 1.0 / 0.0 }

theorem twice_representable (draws : Nat → Float) : twice.Representable draws := by
  intro k h1 hlt
  change (k : Int) < 2 at hlt
  obtain rfl : k = 1 := by omega
  exact ⟨_, rfl⟩

def tooMany : CallError := ⟨"RateLimitError", .plain, "slow down", some 429⟩

def busyOnce (attempt : Nat) : Except CallError String :=
  if attempt = 1 then .error tooMany else .ok "answer"

/-- The second attempt is made, and it is the last. -/
theorem retryDrawn_obeys_busyOnce : twice.Representable (fun _ => 0.5) ∧
    let run := retryDrawn twice (fun _ => 0.5) "llm" busyOnce
    run.Obeys twice (fun _ => 0.5) "llm" busyOnce 1 ∧ run.attempts = 2 ∧
      run.outcome = .value "answer" := by
  obtain ⟨hobeys, _⟩ := retryDrawn_obeys twice (fun _ => 0.5) "llm" busyOnce (twice_representable _)
  have hfirst : ¬twice.IsLast 1 (busyOnce 1) := by
    change ¬(_ ∨ _ ∨ _)
    decide
  have htwo : (retryDrawn twice (fun _ => 0.5) "llm" busyOnce).attempts = 2 := by
    have h1 := hobeys.first_le
    have h2 : ((retryDrawn twice (fun _ => 0.5) "llm" busyOnce).attempts : Int) ≤ 2 := hobeys.within
    have hne : (retryDrawn twice (fun _ => 0.5) "llm" busyOnce).attempts ≠ 1 := by
      intro hone
      have hlast := hobeys.last
      rw [hone] at hlast
      exact hfirst hlast
    omega
  refine ⟨twice_representable _, hobeys, htwo, ?_⟩
  rw [hobeys.outcome, htwo]
  rfl

end Sample

end JudgedLint.Model
