import JudgedLint.Form.Reader
import JudgedLint.Json.Basic

/-! Rules: checks in natural language, each applied to the files that its glob selects. -/
namespace JudgedLint.Lint

inductive Severity where
  | error
  | warning
  deriving DecidableEq, Repr, Inhabited

def Severity.name : Severity → String
  | .error => "error"
  | .warning => "warning"

def severities : List (String × Severity) := [("error", .error), ("warning", .warning)]

structure Rule where
  id : String
  name : String
  severity : Severity
  glob : String
  exclude : Option String
  prompt : String
  /-- The model to ask instead of the configured one. -/
  model : Option String
  deriving DecidableEq, Repr, Inhabited

def isLower (c : Char) : Bool := 'a' ≤ c && c ≤ 'z'

def isIdChar (c : Char) : Bool := isLower c || c.isDigit || c == '_'

/-- A lower-case letter followed by lower-case letters, digits and underscores. -/
def isRuleId (s : String) : Bool :=
  match s.toList with
  | [] => false
  | c :: rest => isLower c && rest.all isIdChar

def ruleIdForm : String := "^[a-z][a-z0-9_]*$"

namespace Rule

def memberNames : List String := ["id", "name", "severity", "glob", "exclude", "prompt", "model"]

open Form in
/-- Reads a rule; members it does not know are faults. -/
def reader : Form.Reader Rule := record "LintRule" <| closed memberNames fun d =>
  Checked.apply (Checked.apply (Checked.apply (Checked.apply (Checked.apply (Checked.apply
    ((required "id" (textMatching isRuleId ruleIdForm) d).map Rule.mk)
    (required "name" (textOfLength 1) d))
    (required "severity" (oneOf severities) d))
    (required "glob" (textOfLength 1) d))
    (withDefault "exclude" none (optional text) d))
    (required "prompt" (textOfLength 1) d))
    (withDefault "model" none (optional text) d)

/-- What is wrong with the data of a rule, a line each; nothing if they make a rule. -/
def problems (d : Datum) : List String :=
  match reader d with
  | .ok _ => []
  | .error errors => errors.map Form.Error.plainLine

def setMembers (r : Rule) : List (String × String) :=
  [("id", r.id), ("name", r.name), ("severity", r.severity.name), ("glob", r.glob)] ++
    (r.exclude.map fun e => ("exclude", e)).toList ++ [("prompt", r.prompt)] ++
    (r.model.map fun m => ("model", m)).toList

def toJson (r : Rule) : Json :=
  .obj [("id", .str r.id), ("name", .str r.name), ("severity", .str r.severity.name),
    ("glob", .str r.glob), ("exclude", Json.ofOption .str r.exclude), ("prompt", .str r.prompt),
    ("model", Json.ofOption .str r.model)]

/-- The data under which a rule is added to a configuration: the members that are set. -/
def toDatum (r : Rule) : Datum :=
  .map (r.setMembers.map fun m => (.str m.1, .str m.2))

end Rule
end JudgedLint.Lint
