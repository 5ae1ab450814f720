import JudgedLint.Lint.Run

/-! What is read off a history, event by event. -/
namespace JudgedLint.Lint.History

variable {h h' : History}

@[simp] theorem judged_nil : History.judged [] = [] := rfl

@[simp] theorem judged_append : History.judged (h ++ h') = h.judged ++ h'.judged :=
  List.filterMap_append

@[simp] theorem judged_called (request : Model.Request) :
    History.judged (.called request :: h) = h.judged := rfl

@[simp] theorem judged_answered (j : Job) (k : Nat) (r : Model.Reply) :
    History.judged (.answered j k r :: h) = h.judged := rfl

@[simp] theorem judged_finished (j : Job) (r : Result) :
    History.judged (.finished j r :: h) = (j, r) :: h.judged := rfl

@[simp] theorem judged_noted (context : Log.Context) (j : Job) (rs : List Log.Record) :
    History.judged (Fanout.noted context j rs) = [] := by
  induction rs with
  | nil => rfl
  | cons r rest ih => exact ih

theorem mem_judged {j : Job} {r : Result} : (j, r) ∈ h.judged ↔ .finished j r ∈ h := by
  rw [judged, List.mem_filterMap]
  constructor
  · rintro ⟨e, he, heq⟩
    cases e <;> cases heq
    exact he
  · intro hmem
    exact ⟨_, hmem, rfl⟩

@[simp] theorem reports_nil : History.reports [] = 0 := rfl

@[simp] theorem reports_append : History.reports (h ++ h') = h.reports + h'.reports :=
  List.countP_append

@[simp] theorem reports_called (request : Model.Request) :
    History.reports (.called request :: h) = h.reports := by
  simp [History.reports]

@[simp] theorem reports_answered (j : Job) (k : Nat) (r : Model.Reply) :
    History.reports (.answered j k r :: h) = h.reports := by
  simp [History.reports]

@[simp] theorem reports_finished (j : Job) (r : Result) :
    History.reports (.finished j r :: h) = h.reports := by
  simp [History.reports]

@[simp] theorem reports_reported (rs : List Result) (s : Summary) :
    History.reports (.reported rs s :: h) = h.reports + 1 := by
  simp [History.reports]

@[simp] theorem reports_fanout_noted (context : Log.Context) (j : Job) (rs : List Log.Record) :
    History.reports (Fanout.noted context j rs) = 0 := by
  refine List.countP_eq_zero.mpr fun e he => ?_
  obtain ⟨r, _, rfl⟩ := List.mem_map.mp he
  exact Bool.false_ne_true

@[simp] theorem reports_noted (runId : String) (rs : List Log.Record) :
    History.reports (Run.noted runId rs) = 0 := by
  refine List.countP_eq_zero.mpr fun e he => ?_
  obtain ⟨r, _, rfl⟩ := List.mem_map.mp he
  exact Bool.false_ne_true

@[simp] theorem reports_served (served : List (Job × Result)) :
    History.reports (served.map fun s => .served s.1 s.2) = 0 := by
  refine List.countP_eq_zero.mpr fun e he => ?_
  obtain ⟨s, _, rfl⟩ := List.mem_map.mp he
  exact Bool.false_ne_true

def answers (h : History) : List (Job × Nat × Model.Reply) :=
  h.filterMap fun e => match e with
    | .answered j k r => some (j, k, r)
    | _ => none

theorem mem_answers {j : Job} {k : Nat} {r : Model.Reply} :
    (j, k, r) ∈ h.answers ↔ .answered j k r ∈ h := by
  rw [answers, List.mem_filterMap]
  constructor
  · rintro ⟨e, he, heq⟩
    cases e <;> cases heq
    exact he
  · intro hmem
    exact ⟨_, hmem, rfl⟩

@[simp] theorem answers_append : History.answers (h ++ h') = h.answers ++ h'.answers :=
  List.filterMap_append

@[simp] theorem answers_nil : History.answers [] = [] := rfl

@[simp] theorem answers_called (request : Model.Request) :
    History.answers (.called request :: h) = h.answers := rfl

@[simp] theorem answers_answered (j : Job) (k : Nat) (r : Model.Reply) :
    History.answers (.answered j k r :: h) = (j, k, r) :: h.answers := rfl

@[simp] theorem answers_finished (j : Job) (r : Result) :
    History.answers (.finished j r :: h) = h.answers := rfl

@[simp] theorem answers_fanout_noted (context : Log.Context) (j : Job) (rs : List Log.Record) :
    History.answers (Fanout.noted context j rs) = [] := by
  induction rs with
  | nil => rfl
  | cons r rest ih => exact ih

@[simp] theorem answers_reported (rs : List Result) (s : Summary) :
    History.answers (.reported rs s :: h) = h.answers := rfl

@[simp] theorem answers_noted (runId : String) (rs : List Log.Record) :
    History.answers (Run.noted runId rs) = [] := by
  induction rs with
  | nil => rfl
  | cons r rest ih => exact ih

@[simp] theorem answers_served (served : List (Job × Result)) :
    History.answers (served.map fun s => .served s.1 s.2) = [] := by
  induction served with
  | nil => rfl
  | cons s rest ih => exact ih

/-- Every answer is the one that a script has for the attempt on the job. -/
def Follows (h : History) (replies : Job → Nat → Model.Reply) : Prop :=
  ∀ j k r, .answered j k r ∈ h → r = replies j k

theorem follows_iff {replies : Job → Nat → Model.Reply} :
    h.Follows replies ↔ ∀ a ∈ h.answers, a.2.2 = replies a.1 a.2.1 := by
  constructor
  · rintro hf ⟨j, k, r⟩ ha
    exact hf j k r (mem_answers.mp ha)
  · intro hall j k r hr
    exact hall _ (mem_answers.mpr hr)

theorem Follows.of_append {replies : Job → Nat → Model.Reply} (hf : Follows (h ++ h') replies) :
    h.Follows replies := by
  intro j k r hr
  exact hf j k r (List.mem_append_left h' hr)

theorem Follows.of_append_right {replies : Job → Nat → Model.Reply} (hf : Follows (h ++ h') replies) :
    h'.Follows replies := by
  intro j k r hr
  exact hf j k r (List.mem_append_right h hr)

end JudgedLint.Lint.History
