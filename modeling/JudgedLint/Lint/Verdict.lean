import JudgedLint.Form.Reader
import JudgedLint.Json.Reader
import JudgedLint.Model.Client

/-! Verdicts: what a model says of one rule and one file, read from its answer.

A fence around the answer is taken away. An answer without content, or whose message says nothing,
is no verdict. -/
namespace JudgedLint.Lint

open Model (CallError Reply)

structure Verdict where
  passed : Bool
  message : String
  line : Option Int
  deriving DecidableEq, Repr, Inhabited

def fence : List Char := ['`', '`', '`']

/-- The text behind the first line break; nothing if there is none. -/
def afterFirstLine (cs : List Char) : List Char := (cs.dropWhile (· != '\n')).drop 1

def dropClosingFence (cs : List Char) : List Char :=
  let trimmed := Text.dropEndWhile Text.isBlank cs
  if fence.isSuffixOf trimmed then trimmed.take (trimmed.length - 3) else cs

/-- The text without the fence it may stand in, and without blanks around it. -/
def stripFences (s : String) : String :=
  let cs := (Text.trim s).toList
  Text.trim <| String.ofList <|
    if fence.isPrefixOf cs then dropClosingFence (afterFirstLine cs) else cs

namespace Verdict

open Form in
def reader : Form.Reader Verdict := record CallError.verdictName fun d =>
  Checked.apply (Checked.apply
    ((requiredEither "pass" "passed" truth d).map Verdict.mk)
    (required "message" text d))
    (withDefault "line" none (optional integer) d)

def ofText (s : String) : Form.Checked Verdict :=
  match Json.parse .strict s with
  | .error _ => Form.fail .invalidJson
  | .ok (.obj ms) => reader (Datum.ofJson (.obj ms))
  | .ok _ => Form.fail .notObject

def ofContent (content : String) : Except CallError Verdict :=
  if Text.isBlankText content then .error (.emptyResponse "AI returned no content")
  else
    match ofText (stripFences content) with
    | .error errors => .error (.verdict errors)
    | .ok v =>
      if Text.isBlankText v.message then .error (.emptyResponse "AI returned empty content")
      else .ok v

def ofReply (r : Reply) : Except CallError Verdict := r.bind ofContent

end Verdict
end JudgedLint.Lint
