import JudgedLint.Lint.Rule
import JudgedLint.Log.Record
import JudgedLint.Model.Catalog
import JudgedLint.Workspace.Tree
import JudgedLint.Yaml.Value
import JudgedLint.Text.Line

/-! The configuration of a project: provider, model, and the rules to check. -/
namespace JudgedLint.Lint

open Workspace (Path Tree FileError)

inductive Provider where
  | openrouter
  | ollama
  | anthropic
  deriving DecidableEq, Repr, Inhabited

def Provider.name : Provider → String
  | .openrouter => "openrouter"
  | .ollama => "ollama"
  | .anthropic => "anthropic"

def providers : List (String × Provider) :=
  [("openrouter", .openrouter), ("ollama", .ollama), ("anthropic", .anthropic)]

structure Config where
  provider : Provider
  providerUrl : Option String
  model : String
  /-- How many calls may be in flight at once. -/
  concurrency : Nat
  gitBase : String
  rules : List Rule
  deriving DecidableEq, Repr

namespace Config

def defaultModels : List (String × String) :=
  [("openrouter", "gemini-flash"), ("anthropic", "sonnet")]

def defaultConcurrency : Nat := 5
def localConcurrency : Nat := 1
def maxConcurrency : Nat := 20
def localUrl : String := "http://localhost:11434/v1"

inductive DataError where
  | invalid (errors : List Form.Error)
  /-- The provider is a value that no table can be searched for. -/
  | unhashable (type : String)
  deriving DecidableEq, Repr

def isUnset (name : String) (d : Datum) : Bool := !((d.get? name).map Datum.isTruthy).getD false

def isMissing (name : String) (d : Datum) : Bool := ((d.get? name).map Datum.isNull).getD true

def setEntry (name : String) (value : Datum) (entries : List (Datum × Datum)) :
    List (Datum × Datum) := Datum.insert (.str name) value entries

def setIf (condition : Bool) (name : String) (value : Datum) (entries : List (Datum × Datum)) :
    List (Datum × Datum) := if condition then setEntry name value entries else entries

/-- Fills in what depends on the provider: a local one needs a model and has an address of its own,
a hosted one has a model of its own; each has its own degree of concurrency. -/
def withDefaults (d : Datum) : Except DataError Datum := do
  let provider := if isUnset "provider" d then .str "openrouter" else (d.get? "provider").getD .null
  let noModel := isUnset "model" d
  let noConcurrency := isMissing "concurrency" d
  if provider.str? == some "ollama" then
    if noModel then
      throw (.invalid [⟨[], .rule "model is required when provider is ollama"⟩])
    return .map <| setIf noConcurrency "concurrency" (.int localConcurrency) <|
      setIf (d.get? "provider_url").isNone "provider_url" (.str localUrl) d.entries
  else
    let model ←
      if noModel then
        match provider.unhashable? with
        | some type => throw (.unhashable type)
        | none => pure (provider.str?.bind fun p => defaultModels.lookup p)
      else pure none
    let entries := match model with
      | some m => setEntry "model" (.str m) d.entries
      | none => d.entries
    return .map (setIf noConcurrency "concurrency" (.int defaultConcurrency) entries)

open Form in
def concurrencyReader : Form.Reader Nat := fun d => do
  let n ← integer d
  if n < 0 then fail (.atLeast 0)
  else if (maxConcurrency : Int) < n then fail (.atMost maxConcurrency)
  else if n < 1 then fail (.rule "concurrency must be >= 1")
  else return n.toNat

/-- The ids that stand more than once, in the order of their second places. -/
def repeatedIds (ids : List String) : List String :=
  let step (acc : List String × List String) (id : String) : List String × List String :=
    let (seen, repeated) := acc
    (id :: seen, if seen.contains id && !repeated.contains id then repeated ++ [id] else repeated)
  (ids.foldl step ([], [])).2

open Form in
def rulesReader : Form.Reader (List Rule) := fun d => do
  let rules ← listOf Rule.reader d
  let repeated := repeatedIds (rules.map (·.id))
  if repeated.isEmpty then return rules
  else
    fail (.rule ("Duplicate rule IDs found: " ++ Text.join ", " repeated ++
      ". Each rule must have a unique ID."))

def memberNames : List String :=
  ["provider", "provider_url", "model", "concurrency", "git_base", "rules"]

open Form in
/-- Reads a configuration whose defaults have been filled in. -/
def reader : Form.Reader Config := record "LinterConfig" <| closed memberNames fun d =>
  Checked.apply (Checked.apply (Checked.apply (Checked.apply (Checked.apply
    ((withDefault "provider" Provider.openrouter (oneOf providers) d).map Config.mk)
    (withDefault "provider_url" none (optional text) d))
    (withDefault "model" "" text d))
    (withDefault "concurrency" 0 concurrencyReader d))
    (withDefault "git_base" "main" text d))
    (required "rules" rulesReader d)

/-- Reads a configuration, filling in its defaults first. -/
def ofDatum (d : Datum) : Except DataError Config := do
  let d ← if d.isMap then withDefaults d else pure d
  (reader d).mapError .invalid

def ruleIds (c : Config) : List String := c.rules.map (·.id)

def toJson (c : Config) : Json :=
  .obj [("provider", .str c.provider.name), ("provider_url", Json.ofOption .str c.providerUrl),
    ("model", .str c.model), ("concurrency", .nat c.concurrency), ("git_base", .str c.gitBase),
    ("rules", .arr (c.rules.map Rule.toJson))]

inductive Error where
  | notFound (path : String)
  | unreadable (path : String) (e : FileError)
  | malformed (path : String)
  | notMapping
  | invalid (errors : List Form.Error)
  | unknownModel (model provider : String) (allowed : List String)
  | unknownRuleModel (model rule provider : String) (allowed : List String)
  | fileNotMapping (path : String)
  | ruleExists (id path : String)
  | missingCredential (variableName provider : String)
  deriving DecidableEq, Repr

def Error.message : Error → String
  | .notFound path => s!"Config file not found: {path}"
  | .unreadable path e => s!"Cannot read config file {path}: {e.message}"
  | .malformed path => s!"Config file {path} is not valid YAML: the document is malformed"
  | .notMapping => "Config validation failed:\n  - root: must be a mapping"
  | .invalid errors => "Config validation failed:\n" ++ Form.friendlyReport errors
  | .unknownModel model provider allowed =>
    s!"Unknown model '{model}' for {provider} provider. Allowed values: " ++ Text.join ", " allowed
  | .unknownRuleModel model rule provider allowed =>
    s!"Unknown model '{model}' in rule '{rule}' for {provider} provider. Allowed values: " ++
      Text.join ", " allowed
  | .fileNotMapping path => s!"Config file {path} must contain a mapping"
  | .ruleExists id path => s!"Rule '{id}' already exists in {path}"
  | .missingCredential variableName provider =>
    s!"{variableName} environment variable is required for the {provider} provider"

inductive LoadError where
  | config (e : Error)
  | unhashable (type : String)
  | undecodable (e : Text.Utf8Error)
  | path (e : FileError)
  | yaml (f : Yaml.Fault)
  deriving DecidableEq, Repr

/-- Checks every model name that a configuration uses against the catalog. -/
def checkModels (catalog : Model.Catalog) (c : Config) : Except Error Unit :=
  let provider := c.provider.name
  match catalog.allowed provider with
  | none => .ok ()
  | some allowed =>
    if !catalog.isValid provider c.model then .error (.unknownModel c.model provider allowed)
    else
      let unknown (r : Rule) : Option Error :=
        match r.model with
        | none => none
        | some m =>
          if m.isEmpty || catalog.isValid provider m then none
          else some (.unknownRuleModel m r.id provider allowed)
      match c.rules.findSome? unknown with
      | some e => .error e
      | none => .ok ()

def validate (catalog : Model.Catalog) (raw : Datum) : Except LoadError Config :=
  if !raw.isMap then .error (.config .notMapping)
  else
    match ofDatum raw with
    | .error (.invalid errors) => .error (.config (.invalid errors))
    | .error (.unhashable type) => .error (.unhashable type)
    | .ok c =>
      match checkModels catalog c with
      | .error e => .error (.config e)
      | .ok () => .ok c

def defaultPath : String := ".ai-lint.yml"

def load (catalog : Model.Catalog) (t : Tree) (path : Path) : Except LoadError Config := do
  match t.read path with
  | .error e =>
    throw <|
      if e.refusal == .noEntry then .config (.notFound path.text)
      else if e.refusal == .embeddedNul then .path e
      else .config (.unreadable path.text e)
  | .ok bytes =>
    let text ← (Text.utf8Decode bytes).mapError .undecodable
    match Yaml.read (Text.universalNewlines text) with
    | .error f => throw (if f.isMalformed then .config (.malformed path.text) else .yaml f)
    | .ok raw => validate catalog raw

def loadedRecord (path : Path) (c : Config) : Log.Record :=
  Log.record .debug "config.loader" <|
    s!"Loaded config {path.text}: provider={c.provider.name} model={c.model} rules={c.rules.length}"

end Config
end JudgedLint.Lint
