import JudgedLint.Cache.Store
import JudgedLint.Draft.Fault
import JudgedLint.Lint.Config
import JudgedLint.Log.Sink
import JudgedLint.Model.ClientError
import JudgedLint.Model.Retry
import JudgedLint.Settings.Basic
import JudgedLint.Workspace.Selection

/-! Everything that can end a command without its result: the causes, the names under which they
are reported, and what is said of them. -/
namespace JudgedLint

inductive Failure where
  | config (e : Lint.Config.Error)
  | gitMissing
  | gitFailed (detail : String)
  | pattern (e : Pattern.RegexError)
  | file (e : Workspace.FileError)
  | undecodable (e : Text.Utf8Error)
  | unencodable (e : Text.EncodeError)
  | unwritableCache (e : Text.EncodeError)
  /-- A value of this type was looked up as a key. -/
  | unhashable (type : String)
  | yaml (f : Yaml.Fault)
  /-- The rules of a configuration file are a value that no rule can be added to. -/
  | rulesType (type : String) (isIterable : Bool)
  /-- Data that make no value of the form asked for. -/
  | invalid (errors : List Form.Error)
  | json (e : Json.ReadError)
  | draft (f : Draft.Fault)
  | call (e : Model.CallError)
  | catalog (e : Model.CatalogError)
  | client (e : Model.ClientError)
  | delay (e : Model.RetryPolicy.DelayError)
  /-- A time in milliseconds is beyond the range of floats in seconds. -/
  | longDuration
  | sink (e : Log.SinkError)
  | endOfInput
  | noAnswerLeft
  | interrupted
  deriving DecidableEq, Repr

namespace Failure

def sinkKind : Log.SinkError → String
  | .setup (.file e) => e.refusal.kind
  | .setup (.size (.unit _)) => "KeyError"
  | .setup (.size _) => "ValueError"
  | .level _ => "ValueError"

def sinkMessage : Log.SinkError → String
  | .setup (.file e) => e.message
  | .setup (.size e) => e.message
  | .level shown => s!"Unknown level: {shown}"

def kind : Failure → String
  | .config _ => "ConfigurationError"
  | .gitMissing | .gitFailed _ => "FileResolutionError"
  | .pattern _ => "re.error"
  | .file e => e.refusal.kind
  | .undecodable _ => "UnicodeDecodeError"
  | .unencodable _ => "UnicodeEncodeError"
  | .unwritableCache _ => "PydanticSerializationError"
  | .unhashable _ => "TypeError"
  | .yaml f => f.kind
  | .rulesType _ isIterable => if isIterable then "AttributeError" else "TypeError"
  | .invalid _ => "ValidationError"
  | .json e =>
    match e.fault with
    | .nesting _ => "RecursionError"
    | .longNumber _ => "ValueError"
    | _ => "JSONDecodeError"
  | .draft _ => "RuleGenerationError"
  | .call e => e.name
  | .catalog _ => "UnknownModelError"
  | .client e => e.kind
  | .delay .zeroToNegative => "ZeroDivisionError"
  | .delay _ | .longDuration => "OverflowError"
  | .sink e => sinkKind e
  | .endOfInput => "EOFError"
  | .noAnswerLeft => "IndexError"
  | .interrupted => "KeyboardInterrupt"

def message : Failure → String
  | .config e => e.message
  | .gitMissing => "Failed to get changed files from git: git not found"
  | .gitFailed detail => s!"Failed to get changed files from git: {detail}"
  | .pattern _ => ""
  | .file e => e.message
  | .undecodable e => e.message
  | .unencodable e => e.message
  | .unwritableCache e => s!"Error serializing to JSON: UnicodeEncodeError: {e.message}"
  | .unhashable type => s!"unhashable type: '{type}'"
  | .yaml f => f.message
  | .rulesType type isIterable =>
    if isIterable then s!"'{type}' object has no attribute 'append'"
    else s!"'{type}' object is not iterable"
  | .invalid errors => Form.friendlyReport errors
  | .json e => e.message
  | .draft f => f.message
  | .call e => e.text
  | .catalog e => e.message
  | .client e => e.message
  | .delay e => e.message
  | .longDuration => "integer division result too large for a float"
  | .sink e => sinkMessage e
  | .endOfInput => "EOF when reading a line"
  | .noAnswerLeft => "pop from empty list"
  | .interrupted => ""

/-- What is said of a failure; its name if there is nothing else to say. -/
def messageOrKind (f : Failure) : String := if f.message.isEmpty then f.kind else f.message

def shown (f : Failure) : String :=
  if f.message.isEmpty then f.kind else s!"{f.kind}: {f.message}"

/-- Failures that a user can mend, and that are reported without a log record. -/
def isExpected : Failure → Bool
  | .config _ | .gitMissing | .gitFailed _ | .draft _ => true
  | .call e => e.isFatal
  | _ => false

def ofLoad : Lint.Config.LoadError → Failure
  | .config e => .config e
  | .unhashable type => .unhashable type
  | .undecodable e => .undecodable e
  | .path e => .file e
  | .yaml f => .yaml f

def ofCacheLoad : Cache.Store.LoadError → Failure
  | .json e => .json e
  | .path e => .file e

def ofSelection : Workspace.SelectionError → Failure
  | .gitMissing => .gitMissing
  | .gitFailed detail => .gitFailed detail
  | .file e => .file e
  | .pattern e => .pattern e

def ofSave : Cache.Store.SaveError → Failure
  | .file e => .file e
  | .text e => .unwritableCache e

def ofSettings : Settings.Error → Failure
  | .invalid errors => .invalid errors
  | .undecodable e => .undecodable e

end Failure
end JudgedLint
