import JudgedLint.Draft.Dialogue
import JudgedLint.Proofs.Lint.Appending

/-! Rules that are drafted and added. Whatever a model answers, a rule that comes out of its drafts is
valid. The file to which it is added goes on being read as a configuration just if the provider knows
the model that the rule asks for: drafts are not checked for that. -/
namespace JudgedLint.Draft

open Lint (Rule Config Starts Addable)
open Lint.ConfigFile (addRule addedRecord defaultContent)
open Workspace (Path Tree)

section

variable {σ : Type} {m : Model.Source σ} {a : Author} {description path : String} {answers rest : Answers}
  {t : Tree} {source : σ} {rule : Rule} {catalog : Model.Catalog} {c : Config}

/-! Sessions -/

theorem reader_of_rule {draft : Json} (h : Draft.rule draft = .ok rule) :
    Rule.reader (Datum.ofJson draft) = .ok rule :=
  mapError_eq_ok.mp h

/-- A rule that comes out of a session has been read from the first draft or from the mended one. -/
theorem valid_of_session (h : (session m a description source).outcome = .ok rule) : rule.Valid := by
  unfold session at h
  dsimp only at h
  split at h
  · cases h
  · split at h
    · next hrule =>
      cases h
      exact Rule.valid_of_reader (reader_of_rule hrule)
    · obtain ⟨fixed, _, hrule⟩ := bind_eq_ok.mp h
      exact Rule.valid_of_reader (reader_of_rule (mapError_eq_ok.mp hrule))

theorem notes_session {r : Log.Record} (h : r ∈ (session m a description source).notes) :
    ∃ problems, r = repairRecord problems := by
  unfold session at h
  dsimp only at h
  split at h
  · cases h
  · split at h
    · cases h
    · exact ⟨_, List.mem_singleton.mp h⟩

theorem addedRecord_ne_repairRecord (p : Path) (problems : List String) :
    addedRecord p rule ≠ repairRecord problems := by
  intro h
  have hlogger : Log.loggerName Lint.ConfigFile.loggerPart = Log.loggerName "rules.generator" :=
    congrArg (·.logger) h
  revert hlogger
  decide

theorem addedRecord_notMem_session (p : Path) (rule : Rule) :
    addedRecord p rule ∉ (session m a description source).notes := by
  intro h
  obtain ⟨problems, heq⟩ := notes_session h
  exact addedRecord_ne_repairRecord p problems heq

/-! Dialogues -/

/-- The rule that a dialogue shows, and the answers that are left for its last question. -/
def shown (m : Model.Source σ) (a : Author) (answers : Answers) (source : σ) :
    Except Failure (Rule × Answers) := do
  let (line, rest) ← answers.next
  if (Text.trim line).isEmpty then throw (.draft .noDescription)
  let rule ← (session m a (Text.trim line) source).outcome
  return (rule, rest)

def Answers.isYes (answers : Answers) : Bool :=
  match answers.next with
  | .error _ => false
  | .ok (answer, _) => Text.lowerAscii (Text.trim answer) == "y"

/-- A rule that a dialogue shows, and is asked to add. -/
def Confirmed (m : Model.Source σ) (a : Author) (answers : Answers) (source : σ) (rule : Rule) : Prop :=
  ∃ rest, shown m a answers source = .ok (rule, rest) ∧ rest.isYes = true

theorem shown_iff : shown m a answers source = .ok (rule, rest) ↔
    ∃ line, answers.next = .ok (line, rest) ∧ (Text.trim line).isEmpty = false ∧
      (session m a (Text.trim line) source).outcome = .ok rule := by
  constructor
  · intro h
    obtain ⟨⟨line, _⟩, hnext, h⟩ := bind_eq_ok.mp h
    dsimp only at h
    split at h
    · cases h
    · next hdescribed =>
      obtain ⟨_, hsession, h⟩ := bind_eq_ok.mp h
      cases h
      exact ⟨line, hnext, Bool.eq_false_of_not_eq_true hdescribed, hsession⟩
  · rintro ⟨line, hnext, hdescribed, hsession⟩
    refine bind_eq_ok.mpr ⟨_, hnext, ?_⟩
    dsimp only
    rw [hdescribed, hsession]
    rfl

theorem valid_of_confirmed (h : Confirmed m a answers source rule) : rule.Valid := by
  obtain ⟨_, hshown, _⟩ := h
  obtain ⟨_, _, _, hsession⟩ := shown_iff.mp hshown
  exact valid_of_session hsession

theorem Confirmed.unique {rule' : Rule} (h : Confirmed m a answers source rule)
    (h' : Confirmed m a answers source rule') : rule' = rule := by
  obtain ⟨_, h, _⟩ := h
  obtain ⟨_, h', _⟩ := h'
  cases Except.ok.inj (h'.symm.trans h)
  rfl

theorem addRule_of_exists_error {p : Path} {default : String} {e : Workspace.FileError}
    (h : t.exists p = .error e) : addRule t p rule default = .error (.file e) := by
  rw [addRule, Lint.ConfigFile.currentText, h]
  rfl

theorem Dialogue.add_fst : (Dialogue.add t path rule).1 =
    (addRule t (Path.ofText path) rule defaultContent).map some := by
  unfold Dialogue.add
  cases hexists : t.exists (Path.ofText path) with
  | error e => exact (congrArg (Except.map some) (addRule_of_exists_error hexists)).symm
  | ok isThere =>
    dsimp only
    cases addRule t (Path.ofText path) rule defaultContent <;> rfl

theorem Dialogue.confirm_fst_of_isYes (h : answers.isYes = true) :
    (Dialogue.confirm t path rule answers).1 =
      (addRule t (Path.ofText path) rule defaultContent).map some := by
  unfold Answers.isYes at h
  unfold Dialogue.confirm
  cases hnext : answers.next with
  | error f =>
    rw [hnext] at h
    cases h
  | ok answer =>
    rw [hnext] at h
    dsimp only at h ⊢
    rw [if_neg (by simpa using h)]
    exact Dialogue.add_fst

theorem Dialogue.confirm_fst_of_not_isYes (path : String) (rule : Rule) (t : Tree)
    (h : answers.isYes = false) :
    ∀ t', (Dialogue.confirm t path rule answers).1 ≠ .ok (some t') := by
  unfold Answers.isYes at h
  unfold Dialogue.confirm
  cases hnext : answers.next with
  | error f => exact nofun
  | ok answer =>
    rw [hnext] at h
    dsimp only at h ⊢
    rw [if_pos (by simpa using h)]
    exact nofun

theorem run_of_not_shown (h : ∀ rule rest, shown m a answers source ≠ .ok (rule, rest)) :
    let D := Dialogue.run m a path answers t source
    D.tree = t ∧ ∀ rule, addedRecord (Path.ofText path) rule ∉ D.notes := by
  unfold Dialogue.run
  cases hnext : answers.next with
  | error f => exact ⟨rfl, fun _ => List.not_mem_nil⟩
  | ok answer =>
    obtain ⟨line, rest⟩ := answer
    dsimp only
    cases hdescribed : (Text.trim line).isEmpty with
    | true => exact ⟨rfl, fun _ => List.not_mem_nil⟩
    | false =>
      rw [if_neg Bool.false_ne_true]
      cases hsession : (session m a (Text.trim line) source).outcome with
      | ok rule => exact absurd (shown_iff.mpr ⟨line, hnext, hdescribed, hsession⟩) (h rule rest)
      | error f => exact ⟨rfl, addedRecord_notMem_session _⟩

theorem run_of_shown (path : String) (t : Tree) (h : shown m a answers source = .ok (rule, rest)) :
    let D := Dialogue.run m a path answers t source
    match (Dialogue.confirm t path rule rest).1 with
    | .ok (some t') => D.outcome = .ok .ok ∧ D.tree = t' ∧ addedRecord (Path.ofText path) rule ∈ D.notes
    | .ok none => D.outcome = .ok .ok ∧ D.tree = t ∧
        ∀ other, addedRecord (Path.ofText path) other ∉ D.notes
    | .error f => D.outcome = .error f ∧ D.tree = t ∧
        ∀ other, addedRecord (Path.ofText path) other ∉ D.notes := by
  obtain ⟨line, hnext, hdescribed, hsession⟩ := shown_iff.mp h
  have hquiet (other : Rule) : addedRecord (Path.ofText path) other ∉
      (session m a (Text.trim line) source).notes ++ [] := by
    rw [List.append_nil]
    exact addedRecord_notMem_session _ _
  unfold Dialogue.run
  rw [hnext]
  dsimp only
  rw [if_neg (by simp [hdescribed]), hsession]
  dsimp only
  cases Dialogue.confirm t path rule rest with
  | mk added more =>
    match added with
    | .error f => exact ⟨rfl, rfl, hquiet⟩
    | .ok none => exact ⟨rfl, rfl, hquiet⟩
    | .ok (some t') => exact ⟨rfl, rfl, List.mem_append_right _ List.mem_cons_self⟩

theorem run_of_not_confirmed (h : ∀ rule, ¬ Confirmed m a answers source rule) :
    let D := Dialogue.run m a path answers t source
    D.tree = t ∧ ∀ rule, addedRecord (Path.ofText path) rule ∉ D.notes := by
  by_cases hany : ∃ rule rest, shown m a answers source = .ok (rule, rest)
  · obtain ⟨rule, rest, hshown⟩ := hany
    have hno : rest.isYes = false := by
      cases hyes : rest.isYes with
      | false => rfl
      | true => exact absurd ⟨rest, hshown, hyes⟩ (h rule)
    have hrun := run_of_shown path t hshown
    have hnone := Dialogue.confirm_fst_of_not_isYes path rule t hno
    dsimp only at hrun ⊢
    split at hrun
    · next t' heq => exact absurd heq (hnone t')
    · exact hrun.2
    · exact hrun.2
  · exact run_of_not_shown fun rule rest hshown => hany ⟨rule, rest, hshown⟩

theorem run_of_confirmed (path : String) (t : Tree) (h : Confirmed m a answers source rule) :
    let D := Dialogue.run m a path answers t source
    match addRule t (Path.ofText path) rule defaultContent with
    | .ok t' => D.outcome = .ok .ok ∧ D.tree = t' ∧ addedRecord (Path.ofText path) rule ∈ D.notes
    | .error f => D.outcome = .error f ∧ D.tree = t ∧
        ∀ other, addedRecord (Path.ofText path) other ∉ D.notes := by
  obtain ⟨rest, hshown, hyes⟩ := h
  have hrun := run_of_shown path t hshown
  rw [Dialogue.confirm_fst_of_isYes hyes] at hrun
  cases hadd : addRule t (Path.ofText path) rule defaultContent with
  | error f =>
    rw [hadd] at hrun
    exact hrun
  | ok t' =>
    rw [hadd] at hrun
    exact hrun

/-- A dialogue adds a rule only if it is confirmed and its id is not there yet. Then, as long as the
provider knows the model that the rule asks for, the file is read as the configuration before with the
rule at its end. -/
theorem run_keeps_config (h : Starts catalog t (Path.ofText path) c)
    (hdraft : ∀ rule, Confirmed m a answers source rule →
      rule.KeepsLines ∧ Config.Accepts catalog c.provider rule) :
    let D := Dialogue.run m a path answers t source
    (∀ rule, Confirmed m a answers source rule → rule.id ∉ c.ruleIds →
      D.outcome = .ok .ok ∧ addedRecord (Path.ofText path) rule ∈ D.notes ∧
        Config.load catalog D.tree (Path.ofText path) = .ok (c.withRule rule)) ∧
    ((∀ rule, Confirmed m a answers source rule → rule.id ∈ c.ruleIds) →
      D.tree = t ∧ ∀ rule, addedRecord (Path.ofText path) rule ∉ D.notes) := by
  intro D
  have hgrowable := (Lint.growable_of_starts h).1
  have haddable (rule : Rule) (hrule : Confirmed m a answers source rule) :
      Addable catalog c.provider rule :=
    ⟨valid_of_confirmed hrule, (hdraft rule hrule).1, (hdraft rule hrule).2⟩
  refine ⟨fun rule hrule hnew => ?_, fun hrefused => ?_⟩
  · obtain ⟨t', hadd, _, hload⟩ := (Lint.addRule_of_growable hgrowable (haddable rule hrule)).2 hnew
    have hrun := run_of_confirmed path t hrule
    rw [hadd] at hrun
    obtain ⟨houtcome, htree, hnote⟩ := hrun
    exact ⟨houtcome, hnote, htree ▸ hload⟩
  · by_cases hconfirmed : ∃ rule, Confirmed m a answers source rule
    · obtain ⟨rule, hrule⟩ := hconfirmed
      have hadd := (Lint.addRule_of_growable hgrowable (haddable rule hrule)).1 (hrefused rule hrule)
      have hrun := run_of_confirmed path t hrule
      rw [hadd] at hrun
      exact hrun.2
    · exact run_of_not_confirmed (not_exists.mp hconfirmed)

/-- Drafts are not checked for their models: a confirmed rule whose model is unknown is added, and the
file is refused from then on. -/
theorem run_breaks_config {model : String} (h : Starts catalog t (Path.ofText path) c)
    (hrule : Confirmed m a answers source rule) (hkeeps : rule.KeepsLines) (hnew : rule.id ∉ c.ruleIds)
    (hmodel : rule.model = some model) (hne : model ≠ "")
    (hunknown : catalog.isValid c.provider.name model = false) :
    let D := Dialogue.run m a path answers t source
    D.outcome = .ok .ok ∧ addedRecord (Path.ofText path) rule ∈ D.notes ∧
      Config.load catalog D.tree (Path.ofText path) =
        .error (.config (.unknownRuleModel model rule.id c.provider.name
          ((catalog.allowed c.provider.name).getD []))) := by
  intro D
  obtain ⟨t', hadd, hload⟩ := Lint.load_of_unknown_model (Lint.growable_of_starts h).1
    (valid_of_confirmed hrule) hkeeps hnew hmodel hne hunknown
  have hrun := run_of_confirmed path t hrule
  rw [hadd] at hrun
  obtain ⟨houtcome, htree, hnote⟩ := hrun
  exact ⟨houtcome, hnote, htree ▸ hload⟩

end

namespace Sample

open Lint.Sample (configPath unconfigured firstConfig starts_unconfigured addable_rule)

def answering (content : String) : Model.Source Unit := ⟨fun s _ => (⟨0, .ok content⟩, s)⟩

def author : Author := ⟨"gemini-flash", 1024⟩

def agreeing : Answers := ⟨["No prints", "y"], .endOfInput⟩

def rule : Rule := Lint.Sample.rule .error

def draft : String := "\x7b\"id\": \"no_print\", \"name\": \"No print\", \"severity\": \"error\", " ++
  "\"glob\": \"*.py\", \"exclude\": null, \"prompt\": \"Do not print.\"\x7d"

theorem confirmed_of_session {content : String} {r : Rule}
    (h : (session (answering content) author (Text.trim "No prints") ()).outcome = .ok r) :
    Confirmed (answering content) author agreeing () r :=
  ⟨⟨["y"], .endOfInput⟩, shown_iff.mpr ⟨_, rfl, by decide, h⟩, by decide⟩

theorem confirmed_draft : Confirmed (answering draft) author agreeing () rule :=
  confirmed_of_session (by decide +kernel)

theorem path_ofText : Path.ofText ".ai-lint.yml" = configPath := by decide

/-- The rule of a draft in a new file. -/
theorem run_keeps_config_new :
    let D := Dialogue.run (answering draft) author ".ai-lint.yml" agreeing unconfigured ()
    Starts .default unconfigured (Path.ofText ".ai-lint.yml") firstConfig ∧
    Confirmed (answering draft) author agreeing () rule ∧ rule.id ∉ firstConfig.ruleIds ∧
    D.outcome = .ok .ok ∧ addedRecord (Path.ofText ".ai-lint.yml") rule ∈ D.notes ∧
      Config.load .default D.tree (Path.ofText ".ai-lint.yml") = .ok (firstConfig.withRule rule) := by
  intro D
  have hstarts : Starts .default unconfigured (Path.ofText ".ai-lint.yml") firstConfig :=
    path_ofText ▸ starts_unconfigured
  have hnew : rule.id ∉ firstConfig.ruleIds := by decide
  refine ⟨hstarts, confirmed_draft, hnew, (run_keeps_config hstarts ?_).1 rule confirmed_draft hnew⟩
  intro other hother
  obtain rfl := confirmed_draft.unique hother
  exact ⟨(addable_rule .error).keepsLines, (addable_rule .error).accepted⟩

def foreignDraft : String :=
  "\x7b\"id\": \"no_print\", \"name\": \"No print\", \"severity\": \"error\", " ++
    "\"glob\": \"*.py\", \"prompt\": \"Do not print.\", \"model\": \"gpt-9\"\x7d"

def foreignRule : Rule := { rule with model := some "gpt-9" }

/-- The new file is there, with the rule in it, and is refused for the model of the rule. -/
theorem foreign_model_refused :
    let D := Dialogue.run (answering foreignDraft) author ".ai-lint.yml" agreeing unconfigured ()
    Starts .default unconfigured (Path.ofText ".ai-lint.yml") firstConfig ∧
    Confirmed (answering foreignDraft) author agreeing () foreignRule ∧ D.outcome = .ok .ok ∧
    addedRecord (Path.ofText ".ai-lint.yml") foreignRule ∈ D.notes ∧
    Config.load .default D.tree (Path.ofText ".ai-lint.yml") = .error (.config (.unknownRuleModel
      "gpt-9" "no_print" "openrouter" ["gemini-flash", "haiku", "sonnet", "opus"])) := by
  intro D
  have hstarts : Starts .default unconfigured (Path.ofText ".ai-lint.yml") firstConfig :=
    path_ofText ▸ starts_unconfigured
  have hconfirmed : Confirmed (answering foreignDraft) author agreeing () foreignRule :=
    confirmed_of_session (by decide +kernel)
  obtain ⟨houtcome, hnote, hload⟩ := run_breaks_config hstarts hconfirmed (by decide)
    (by decide) rfl (by decide) (by decide)
  exact ⟨hstarts, hconfirmed, houtcome, hnote, hload⟩

end Sample
end JudgedLint.Draft
