import JudgedLint.Json.Reader
import JudgedLint.Text.Search

/-! Why no rule came out of a description. -/
namespace JudgedLint.Draft

inductive Fault where
  | noDescription
  | noAnswer
  | notJson (e : Json.ReadError)
  | notObject
  /-- The second draft does not make a rule either. -/
  | unrepaired (problems : List String)
  deriving DecidableEq, Repr

def Fault.message : Fault → String
  | .noDescription => "Description cannot be empty"
  | .noAnswer => "AI returned no valid response"
  | .notJson e => s!"AI response was not valid JSON: {e.message}"
  | .notObject => "AI response was not a rule object"
  | .unrepaired problems =>
    "Generated rule failed schema validation after fix attempt:\n" ++ Text.bulleted "  - " problems

end JudgedLint.Draft
