import JudgedLint.Proofs.Lint.Provenance

/-! The request behind a served result. A stored result is found by the rule's id, the path and the
fingerprints of text and prompt. The request that a model would get holds more: the name of the rule, and
the model's identifier, which the configuration or the rule may change. So a served result answers the
present request just as long as these two stay. -/
namespace JudgedLint.Lint

open Cache (Store)
open Workspace (Path Tree)

variable {σ : Type} {dir : Path} {t : Tree} {e : Episode σ} {past later episodes : List (Episode σ)}
  {j j₀ : Job} {r : Result}

def Judge.sends (g : Judge) (j : Job) : Except Model.CatalogError (String × String) :=
  (g.modelFor j.rule).map fun model => ((g.request model j).model, (g.request model j).prompt)

theorem Job.question_eq (j : Job) : j.question = "## Rule: " ++ (j.rule.name ++
    ("\n" ++ j.rule.prompt ++ "\n\n## File: " ++ j.file ++ "\n" ++ "```" ++ fenceInfo j.file ++ "\n" ++
      j.content ++ "\n" ++ "```")) := by
  unfold question
  simp only [String.append_assoc]
  rfl

/-- Of jobs with the same file, text and prompt, the names of the rules tell the questions apart. -/
theorem Job.question_eq_iff (hfile : j.file = j₀.file) (hcontent : j.content = j₀.content)
    (hprompt : j.rule.prompt = j₀.rule.prompt) :
    j.question = j₀.question ↔ j.rule.name = j₀.rule.name := by
  rw [j.question_eq, j₀.question_eq, hfile, hcontent, hprompt, String.append_right_inj,
    String.append_left_inj]

theorem Judge.sends_eq_ok {g : Judge} {model question : String} :
    g.sends j = .ok (model, question) ↔ g.modelFor j.rule = .ok model ∧ j.question = question := by
  rw [sends]
  cases g.modelFor j.rule with
  | error e => simp [Except.map]
  | ok model' => simp [Except.map, request]

def Episode.served (e : Episode σ) : List (Job × Result) :=
  match Run.plan e.setting e.store e.paths e.before.tree with
  | .ok p => p.served
  | .error _ => []

theorem Episode.mem_served (hq : (j, r) ∈ e.served) : ∃ p,
    Run.Planned e.setting e.store e.paths e.before.tree p ∧ e.jobs = p.jobs ∧ (j, r) ∈ p.served := by
  rw [served] at hq
  split at hq
  · next p hp => exact ⟨p, Run.plan_planned hp, by rw [jobs, hp], hq⟩
  · cases hq

/-- An earlier run judged the same text by the same prompt: the result is served, and `model` was asked
for it. -/
structure Reuses (j : Job) (r : Result) (e₀ : Episode σ) (j₀ : Job) (model : String) : Prop where
  judged : ∃ r₀, e₀.Judges j₀ r₀ ∧ r = { r₀ with cached := true }
  called : .called (e₀.setting.judge.request model j₀) ∈ e₀.run.history
  sent : e₀.setting.judge.sends j₀ = .ok (model, j₀.question)
  ruleId : j₀.rule.id = j.rule.id
  file : j₀.file = j.file
  content : j₀.content = j.content
  prompt : j₀.rule.prompt = j.rule.prompt

theorem Chronicle.reuses (h : Chronicle dir past e.before.tree) (he : e.Valid dir)
    (hfree : CollisionFree (e :: past)) (hq : (j, r) ∈ e.served) :
    ∃ e₀ ∈ past, ∃ j₀ model, Reuses j r e₀ j₀ model := by
  obtain ⟨d, hremembers, hkeeps, hcomes⟩ := h.comes
  obtain ⟨p, hplanned, hjobs, hserved⟩ := Episode.mem_served hq
  obtain ⟨notes, hload⟩ := hplanned.loaded
  rw [Run.Plan.served, hkeeps.load hremembers he.dir hload, mem_hits] at hserved
  obtain ⟨hj, stored, hlookup, rfl⟩ := hserved
  obtain ⟨x, hx, hfile, hprompt, rfl⟩ := Cache.Document.lookup_eq_some.mp hlookup
  obtain ⟨e₀, he₀, j₀, r₀, timestamp, hjudges, hkey, rfl⟩ := hcomes _ x (Json.mem_of_lookup hx)
  obtain ⟨hid, hpath⟩ := Cache.key_injective hjudges.isRuleId (hplanned.isRuleId he.rules hj) hkey.symm
  obtain ⟨hsameText, hsamePrompt⟩ := hfree e₀ (List.mem_cons_of_mem _ he₀) e List.mem_cons_self
    j₀ hjudges.job j (hjobs ▸ hj)
  obtain ⟨hfileHash, hpromptHash⟩ := Episode.job_hashes (e := e) (hjobs ▸ hj)
  obtain ⟨hfileHash₀, hpromptHash₀⟩ := Episode.job_hashes hjudges.job
  obtain ⟨model, hmodel, hcalled⟩ := hjudges.earned.asked
  exact ⟨e₀, he₀, j₀, model, ⟨r₀, hjudges, rfl⟩, hcalled, Judge.sends_eq_ok.mpr ⟨hmodel, rfl⟩, hid,
    hpath, hsameText (hfileHash₀.symm.trans (hfile.trans hfileHash)),
    hsamePrompt (hpromptHash₀.symm.trans (hprompt.trans hpromptHash))⟩

namespace Sample

open Cache.Sample

def rerun (g : Setting Unit) (t : Tree) : Episode Unit :=
  ⟨g, store {}, ["a.py"], world t, Run.run g (store {}) ["a.py"] (world t)⟩

section

variable {g : Setting Unit} {r : Rule} {durationMs : Int}

theorem served_rerun (hrules : g.rules = [r])
    (hmatched : matchFiles [r] ["a.py"] = .ok [("a.py", [r])]) (hid : r.id = "no_print")
    (hprompt : r.prompt = "Do not print.") (hs : Json.IsShort durationMs) :
    (rerun g (kept (filled .error {} durationMs))).jobs = [.of r "a.py" "p"] ∧
    (rerun g (kept (filled .error {} durationMs))).served =
      [(.of r "a.py" "p", { result .error durationMs with cached := true })] := by
  obtain ⟨notes, hload, _⟩ := load_cached (decode_filled .error hs)
  obtain ⟨opening, hplan⟩ := plan_single hrules hmatched hload (fileText_source _)
  obtain ⟨hserved, _⟩ := served_filled .error r hid hprompt durationMs
  simp only [Episode.jobs, Episode.served, rerun, world, kept, hplan, Run.Plan.served]
  exact ⟨trivial, hserved⟩

theorem Twice.first (h : Twice .error .error durationMs) :
    Chronicle (store {}).dir [episode .error bare] (kept (filled .error {} durationMs)) := by
  have hboth : Chronicle (store {}).dir ([] ++ episode .error (kept (filled .error {} durationMs)) ::
      [episode .error bare]) (kept (filled .error {} durationMs)) := h.chronicle
  exact hboth.before.1

theorem modelFor_job : (setting .error 1 0.5).judge.modelFor (job .error).rule = .ok "llama3" := by
  decide

theorem Twice.reuses_first (h : Twice .error .error durationMs) {j : Job} {res : Result}
    {e₀ : Episode Unit} {j₀ : Job} {model : String} (he₀ : e₀ ∈ [episode .error bare])
    (hr : Reuses j res e₀ j₀ model) :
    e₀ = episode .error bare ∧ j₀ = job .error ∧ model = "llama3" := by
  obtain rfl := List.mem_singleton.mp he₀
  obtain ⟨r₀, hjudges, _⟩ := hr.judged
  have hjob := hjudges.job
  rw [h.before] at hjob
  obtain rfl := List.mem_singleton.mp hjob
  obtain ⟨hmodel, _⟩ := Judge.sends_eq_ok.mp hr.sent
  exact ⟨rfl, rfl, Except.ok.inj (hmodel.symm.trans modelFor_job)⟩

end

def renamed : Rule := { rule .error with name := "No printing" }

def changed : Setting Unit :=
  { setting .error 1 0.5 with
    judge := { (setting .error 1 0.5).judge with defaultModel := "mistral" }
    rules := [renamed] }

end Sample

end JudgedLint.Lint
