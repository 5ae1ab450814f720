import JudgedLint.Model.Client
import JudgedLint.Text.Search

/-! A model that answers from a script. Each part of the script serves the prompts that hold a given
text; its answers are used up one by one, and the last one stays. -/
namespace JudgedLint.Model

structure ScriptPart where
  needle : String
  responses : List Response

abbrev Script := List ScriptPart

namespace Script

/-- The answer where no part of the script serves. -/
def passing : Response :=
  ⟨0.0, .ok "\x7b\"pass\": true, \"message\": \"Looks fine\", \"line\": null\x7d"⟩

def draw : List Response → Response × List Response
  | [] => (passing, [])
  | [last] => (last, [last])
  | r :: rest => (r, rest)

/-- The response of the first part that serves the prompt. -/
def answer (prompt : String) : Script → Response × Script
  | [] => (passing, [])
  | part :: rest =>
    if Text.contains prompt part.needle then
      let (r, left) := draw part.responses
      (r, { part with responses := left } :: rest)
    else
      let (r, rest) := answer prompt rest
      (r, part :: rest)

def source : Source Script where
  ask script request := script.answer request.prompt

end Script
end JudgedLint.Model
