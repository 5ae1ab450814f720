import JudgedLint.Decimal.Reading
import JudgedLint.Json.Basic
import JudgedLint.Model.Script

/-! Scripts as JSON: a list of parts, each with the text that a prompt must hold and the responses
that it serves. A response is a content or an error, perhaps after a time. -/
namespace JudgedLint.Model

def numberOf? : Json → Option Float
  | .float x => some x
  | .int n => some (Decimal.floatOfInt n)
  | _ => none

/-- A status counts if it is an integer or a truth value. -/
def statusOf : Json → Option Int
  | .int n => some n
  | .bool b => some (if b then 1 else 0)
  | _ => none

namespace CallError

def ofJson (j : Json) : CallError :=
  let name (key : String) : String := ((j.get key).str?).getD "Exception"
  .ofClass (name "class") (name "base") (j.get "message").str? (statusOf (j.get "status"))

end CallError

namespace Response

def ofJson (j : Json) : Response :=
  ⟨(numberOf? (j.get "latency")).getD 0.0,
    match j.get? "error" with
    | some e => .error (.ofJson e)
    | none => .ok (((j.get "content").str?).getD "")⟩

def listOfJson (j : Json) : List Response := j.items.map ofJson

end Response

namespace Script

def ofJson (j : Json) : Script :=
  j.items.map fun part =>
    ⟨((part.get "match").str?).getD "", Response.listOfJson (part.get "responses")⟩

end Script
end JudgedLint.Model
