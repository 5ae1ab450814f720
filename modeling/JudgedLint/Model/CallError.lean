import JudgedLint.Form.Fault
import JudgedLint.Text.Quoted

/-! What can go wrong in a call of a model. -/
namespace JudgedLint.Model

/-- The families of errors that are told apart by what they are, not by what they say. -/
inductive Family where
  | authentication
  | emptyResponse
  | endpoint
  /-- Any other failure that would recur on every call. -/
  | fatal
  | verdict (errors : List Form.Error)
  | timeout
  | connection
  | plain
  deriving DecidableEq, Repr

structure CallError where
  name : String
  family : Family
  text : String
  /-- The status of the response, if there is a numeric one. -/
  status : Option Int
  deriving DecidableEq, Repr

namespace CallError

def authentication (text : String) : CallError :=
  ⟨"LLMAuthenticationError", .authentication, text, none⟩

def emptyResponse (text : String) : CallError :=
  ⟨"LLMEmptyResponseError", .emptyResponse, text, none⟩

def endpoint (text : String) : CallError := ⟨"LLMEndpointUnreachableError", .endpoint, text, none⟩

def verdictName : String := "LintVerdict"

/-- The answer has faults; the text only counts them. -/
def verdict (errors : List Form.Error) : CallError :=
  ⟨"ValidationError", .verdict errors, Form.headline verdictName errors, none⟩

/-- The text, with the faults of an answer written out. -/
def detail (e : CallError) : String :=
  match e.family with
  | .verdict errors => Form.friendlyReport errors
  | _ => e.text

/-- The faults of an answer that writes an empty object. -/
def emptyAnswer : List Form.Error := [⟨[.name "pass"], .missing⟩, ⟨[.name "message"], .missing⟩]

def qualifiedName (e : CallError) : String :=
  let ours := ["LLMAuthenticationError", "LLMEmptyResponseError", "LLMEndpointUnreachableError",
    "LLMFatalError"]
  if ours.contains e.name then "ailint.llm.retry." ++ e.name
  else
    match e.family with
    | .verdict _ => "pydantic_core._pydantic_core." ++ e.name
    | _ => e.name

def shown (e : CallError) : String :=
  if e.text.isEmpty then e.qualifiedName else s!"{e.qualifiedName}: {e.text}"

/-- Whether the failure ends every run in which it occurs. -/
def isFatal (e : CallError) : Bool :=
  match e.family with
  | .authentication | .endpoint | .fatal => true
  | _ => false

def familyOf? (className : String) : Option Family :=
  ([("LLMAuthenticationError", .authentication), ("LLMEmptyResponseError", .emptyResponse),
    ("LLMEndpointUnreachableError", .endpoint), ("LLMFatalError", .fatal),
    ("ValidationError", .verdict emptyAnswer), ("TimeoutError", .timeout),
    ("ConnectionError", .connection), ("ConnectionRefusedError", .connection),
    ("ConnectionResetError", .connection), ("ConnectionAbortedError", .connection),
    ("BrokenPipeError", .connection)]
    : List (String × Family)).lookup className

/-- The classes without a family that a new class cannot take the name of. -/
def plainClasses : List String :=
  ["Exception", "ValueError", "KeyError", "RuntimeError", "OSError", "PermissionError"]

/-- The known class that an error belongs to: its own, or the one below which its own is new. -/
def knownClass (className base : String) : String :=
  if (familyOf? className).isSome || plainClasses.contains className then className else base

/-- An error of a named class, or of a new class below `base`. A missing key is shown in quotes. -/
def ofClass (className base : String) (message : Option String) (status : Option Int) : CallError :=
  let known := knownClass className base
  let family := (familyOf? known).getD .plain
  let text := message.getD ""
  let shown := if known == "KeyError" && message.isSome then Text.quoted text else text
  if className == "ValidationError" then verdict emptyAnswer
  else ⟨className, family, shown, status⟩

end CallError
end JudgedLint.Model
