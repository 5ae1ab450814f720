import JudgedLint.Failure
import JudgedLint.Yaml.Printer

/-! Adding rules to the configuration file. The whole document is read, changed and written back, so
that everything else in it keeps its value. -/
namespace JudgedLint.Lint.ConfigFile

open Workspace (Path Tree)

def defaultContent : String := "# ai-lint configuration

# provider: openrouter   # openrouter | ollama | anthropic
# model: gemini-flash    # Default AI model (gemini-flash | haiku | sonnet | opus)
# concurrency: 5         # Max parallel API calls
# git_base: main         # Base branch for --changed mode

rules: []
# Example rule:
#   - id: no_console_log
#     name: No console.log statements
#     severity: warning
#     glob: \"src/**/*.ts\"
#     prompt: >
#       Check that the file does not contain any console.log statements.
#       Debug logging should use a proper logger instead.
"

mutual
/-- Every mention of a labelled datum replaced. -/
def relabel (label : Nat) (new : Datum) : Datum → Datum
  | .labelled l d => if l == label then .labelled l new else .labelled l (relabel label new d)
  | .list items => .list (relabelItems label new items)
  | .set items => .set (relabelItems label new items)
  | .map entries => .map (relabelEntries label new entries)
  | d => d

def relabelItems (label : Nat) (new : Datum) : List Datum → List Datum
  | [] => []
  | d :: rest => relabel label new d :: relabelItems label new rest

def relabelEntries (label : Nat) (new : Datum) : List (Datum × Datum) → List (Datum × Datum)
  | [] => []
  | (k, v) :: rest => (relabel label new k, relabel label new v) :: relabelEntries label new rest
end

/-- A mapping with an entry set, under the labels that it has. -/
def withEntry (name : String) (value : Datum) : Datum → Datum
  | .labelled l d => .labelled l (withEntry name value d)
  | d => .map (Datum.insert (.str name) value d.entries)

def typeOf (d : Datum) : String × Bool :=
  match d.bare with
  | .null => ("NoneType", false)
  | .bool _ => ("bool", false)
  | .int _ => ("int", false)
  | .float _ => ("float", false)
  | .str _ => ("str", true)
  | .bytes _ => ("bytes", true)
  | .date _ => ("datetime.date", false)
  | .moment _ => ("datetime.datetime", false)
  | .set _ => ("set", true)
  | .map _ => ("dict", true)
  | _ => ("list", true)

def hasId (id : String) (d : Datum) : Bool :=
  match d.get? "id" with
  | some v => v.str? == some id
  | none => false

/-- The document with a rule at the end of its rules. A list of rules that other places of the
document share grows there too. -/
def extend (path : String) (rule : Rule) (doc : Datum) : Except Failure Datum := do
  if !doc.isMap then throw (.config (.fileNotMapping path))
  let value := (doc.get? "rules").getD .null
  if !value.isTruthy then return withEntry "rules" (.list [rule.toDatum]) doc
  match value.bare with
  | .list items =>
    if items.any (hasId rule.id) then throw (.config (.ruleExists rule.id path))
    let grown := Datum.list (items ++ [rule.toDatum])
    match value with
    | .labelled l _ => return relabel l grown doc
    | _ => return withEntry "rules" grown doc
  | _ =>
    let (type, isIterable) := typeOf value
    throw (.rulesType type isIterable)

/-- The document that a text writes; anything that counts as false is an empty one. -/
def document (path : String) (text : String) : Except Failure Datum :=
  match Yaml.read text with
  | .error f => .error (if f.isMalformed then .config (.malformed path) else .yaml f)
  | .ok d => .ok (if d.isTruthy then d else .map [])

def currentText (t : Tree) (path : Path) (default : String) : Except Failure String := do
  if ← (t.exists path).mapError .file then
    let bytes ← (t.read path).mapError .file
    let text ← (Text.utf8Decode bytes).mapError .undecodable
    return Text.universalNewlines text
  else return default

/-- Adds a rule to the file. Nothing is written unless everything before has succeeded. -/
def addRule (t : Tree) (path : Path) (rule : Rule) (default : String) : Except Failure Tree := do
  let text ← currentText t path default
  let doc ← extend path.text rule (← document path.text text)
  if !Yaml.isWritable doc then throw (.yaml .unwritable)
  (t.write path (Text.utf8Encode (Yaml.render doc))).mapError .file

def loggerPart : String := "rules.generate_flow"

def addedRecord (path : Path) (rule : Rule) : Log.Record :=
  Log.record .info loggerPart s!"Appended rule {rule.id} to {path.text}"

end JudgedLint.Lint.ConfigFile
