import JudgedLint.Draft.Prompt
import JudgedLint.Failure
import JudgedLint.Model.Client

/-! Drafting a rule from a description: a model writes it, and mends it once if it is not valid. -/
namespace JudgedLint.Draft

open Lint (Rule)
open Model (Request Source)

structure Author where
  model : String
  maxTokens : Int := 1024

def Author.request (a : Author) (system prompt : String) (temperature : Float) : Request :=
  ⟨a.model, system, prompt, a.maxTokens, temperature, .rule⟩

def Author.first (a : Author) (description : String) : Request :=
  a.request generateSystem description 0.7

def Author.repair (a : Author) (draft : Json) (problems : List String) : Request :=
  a.request repairSystem (repairPrompt draft problems) 0.0

def withoutNulls (ms : List (String × Json)) : Json := .obj (ms.filter fun m => !m.2.isNull)

def ofContent (content : String) : Except Failure Json :=
  if Text.isBlankText content then .error (.draft .noAnswer)
  else
    match Json.parse .general content with
    | .error e => .error (if e.isMalformed then .draft (.notJson e) else .json e)
    | .ok (.obj ms) => .ok (withoutNulls ms)
    | .ok _ => .error (.draft .notObject)

def ofReply (r : Model.Reply) : Except Failure Json := (r.mapError .call).bind ofContent

/-- The rule that a draft makes, or what is wrong with it, a line each. -/
def rule (draft : Json) : Except (List String) Rule :=
  (Rule.reader (Datum.ofJson draft)).mapError (·.map Form.Error.plainLine)

structure Session (σ : Type) where
  outcome : Except Failure Rule
  requests : List Request
  notes : List Log.Record
  source : σ

def repairRecord (problems : List String) : Log.Record :=
  Log.record .info "rules.generator"
    s!"Generated rule failed validation ({problems.length} errors), asking for a fix"

/-- Drafts a rule. A draft that is not valid goes back once, with its faults. -/
def session {σ : Type} (m : Source σ) (a : Author) (description : String) (source : σ) :
    Session σ :=
  let request := a.first description
  let (response, source) := m.ask source request
  match ofReply response.reply with
  | .error f => ⟨.error f, [request], [], source⟩
  | .ok draft =>
    match rule draft with
    | .ok r => ⟨.ok r, [request], [], source⟩
    | .error problems =>
      let again := a.repair draft problems
      let (response, source) := m.ask source again
      let outcome := (ofReply response.reply).bind fun fixed =>
        (rule fixed).mapError fun problems => .draft (.unrepaired problems)
      ⟨outcome, [request, again], [repairRecord problems], source⟩

end JudgedLint.Draft
