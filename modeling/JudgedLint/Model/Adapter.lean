import JudgedLint.Datum
import JudgedLint.Form.Reader
import JudgedLint.Json.Writer
import JudgedLint.Model.Client

/-! Adapters: how a request is put into the words of a provider's interface, and how its response is
read. There are two interfaces: chat completions, which hosted and local providers share, and
messages, in which a structured answer is the input of a tool. -/
namespace JudgedLint.Model

inductive Interface where
  | chat
  | messages
  deriving DecidableEq, Repr, Inhabited

def Interface.package : Interface → String
  | .chat => "openai"
  | .messages => "anthropic"

def Interface.adapterName : Interface → String
  | .chat => "OpenAIAdapter"
  | .messages => "AnthropicAdapter"

def hostedUrl : String := "https://openrouter.ai/api/v1"
def localUrl : String := "http://localhost:11434/v1"

/-- An adapter with its settings, each a value as it was given. -/
structure Adapter where
  interface : Interface
  model : Json
  key : Json
  url : Json
  provider : Json
  credential : Json
  timeout : Json
  deriving Inhabited

namespace Adapter

/-- An adapter from settings by name; those that it does not know are passed over. -/
def ofSettings (i : Interface) (settings : List (String × Json)) : Adapter :=
  let setting (name : String) (default : Json) : Json := (settings.lookup name).getD default
  let timeout := setting "timeout_s" (.float 120.0)
  match i with
  | .chat =>
    ⟨i, setting "model" (.str ""), setting "api_key" (.str ""), setting "base_url" (.str hostedUrl),
      setting "provider" (.str "openrouter"), setting "credential_name" (.str "OPEN_ROUTER_KEY"),
      timeout⟩
  | .messages =>
    ⟨i, setting "model" (.str "claude-sonnet-4-5-20250929"), setting "api_key" .null, .null,
      .str "anthropic", .str "ANTHROPIC_API_KEY", timeout⟩

def isLocal (a : Adapter) : Bool := a.provider.str? == some "ollama"

def client (a : Adapter) : Client :=
  ⟨(a.provider.str?).getD "", (a.credential.str?).getD "", a.isLocal⟩

/-- A value, or another in the place of one that counts as false. -/
def orElse (j default : Json) : Json := if (Datum.ofJson j).isTruthy then j else default

def connection (a : Adapter) : Json :=
  match a.interface with
  | .chat =>
    .obj [("api_key", orElse a.key (.str "unused")), ("base_url", a.url), ("max_retries", .int 0),
      ("timeout", a.timeout)]
  | .messages =>
    .obj [("api_key", orElse a.key (.str "")), ("max_retries", .int 0), ("timeout", a.timeout)]

end Adapter

structure Message where
  role : String
  content : String
  deriving DecidableEq, Repr, Inhabited

def roles : List (String × String) :=
  [("user", "user"), ("assistant", "assistant"), ("system", "system")]

open Form in
def Message.reader : Form.Reader Message := record "Message" fun d =>
  Checked.apply ((required "role" (oneOf roles) d).map Message.mk) (required "content" text d)

def Message.toJson (m : Message) : Json :=
  .obj [("role", .str m.role), ("content", .str m.content)]

/-- A request before it is put into the words of an interface. -/
structure Conversation where
  messages : List Message
  system : Option String := none
  maxTokens : Json := .int 1024
  temperature : Json := .float 0.0
  model : Option String := none
  format : Option Format := none

def Request.conversation (r : Request) : Conversation :=
  ⟨[⟨"user", r.prompt⟩], some r.system, .int r.maxTokens, .float r.temperature, some r.model,
    some r.format⟩

namespace Format

def memberSchema (title type : String) : Json :=
  .obj [("title", .str title), ("type", .str type)]

def optionalSchema (title type : String) : Json :=
  .obj [("anyOf", .arr [.obj [("type", .str type)], .obj [("type", .str "null")]]),
    ("default", .null), ("title", .str title)]

def recordSchema (name description : String) (members : List (String × Json))
    (required : List String) : Json :=
  .obj [("description", .str description), ("properties", .obj members),
    ("required", .arr (required.map .str)), ("title", .str name), ("type", .str "object")]

def schema (f : Format) : Json :=
  match f with
  | .verdict =>
    recordSchema f.name "Structured output a judge model must return for one (file, rule) pair."
      [("pass", memberSchema "Pass" "boolean"), ("message", memberSchema "Message" "string"),
        ("line", optionalSchema "Line" "integer")]
      ["pass", "message"]
  | .rule =>
    recordSchema f.name "Loose shape requested from the model; strict validation is LintRule's."
      [("id", memberSchema "Id" "string"), ("name", memberSchema "Name" "string"),
        ("severity", .obj [("enum", .arr [.str "error", .str "warning"]),
          ("title", .str "Severity"), ("type", .str "string")]),
        ("glob", memberSchema "Glob" "string"), ("exclude", optionalSchema "Exclude" "string"),
        ("prompt", memberSchema "Prompt" "string")]
      ["id", "name", "severity", "glob", "prompt"]

end Format

namespace Adapter

/-- The model asked: the one named, or the adapter's own. -/
def modelOf (a : Adapter) (c : Conversation) : Json :=
  match c.model with
  | some m => if m.isEmpty then a.model else .str m
  | none => a.model

/-- The instruction, unless it is empty. -/
def systemOf (c : Conversation) : Option String :=
  c.system.bind fun s => if s.isEmpty then none else some s

def formatMembers (i : Interface) : Option Format → List (String × Json)
  | none => []
  | some f =>
    match i with
    | .chat =>
      [("response_format", .obj [("type", .str "json_schema"),
        ("json_schema", .obj [("name", .str f.name), ("schema", f.schema)])])]
    | .messages =>
      [("tools", .arr [.obj [("name", .str "structured_output"),
          ("description", .str "Return structured data matching the schema"),
          ("input_schema", f.schema)]]),
        ("tool_choice", .obj [("type", .str "tool"), ("name", .str "structured_output")])]

def payload (a : Adapter) (c : Conversation) : Json :=
  let system := systemOf c
  let messages := c.messages.map Message.toJson
  match a.interface with
  | .chat =>
    let lead := (system.map fun s => Message.toJson ⟨"system", s⟩).toList
    .obj <| [("model", a.modelOf c), ("messages", .arr (lead ++ messages)),
      ("max_tokens", c.maxTokens), ("temperature", c.temperature)] ++ formatMembers .chat c.format
  | .messages =>
    .obj <| [("model", a.modelOf c), ("max_tokens", c.maxTokens), ("temperature", c.temperature),
      ("messages", .arr messages)] ++ (system.map fun s => ("system", Json.str s)).toList ++
      formatMembers .messages c.format

end Adapter

inductive Block where
  | text (content : Json)
  /-- The input of the tool that stands for a structured answer. -/
  | toolUse (input : Json)
  | other
  deriving Inhabited

def Block.content? (structured : Bool) : Block → Option Json
  | .text content => some content
  | .toolUse input => if structured then some (.str (Json.render .line input)) else none
  | .other => none

/-- The content of a response: that of the first block that gives any. -/
def blocksContent (structured : Bool) (blocks : List Block) : Json :=
  (blocks.findSome? (Block.content? structured)).getD (.str "")

structure Usage where
  input : Json
  output : Json
  deriving Inhabited

inductive RawResponse where
  | chat (choices : List Json) (usage : Option Usage)
  | messages (blocks : List Block) (usage : Option Usage) (model : Json)
  deriving Inhabited

structure Answer where
  content : String
  inputTokens : Int
  outputTokens : Int
  model : String
  provider : String
  latencyMs : Int
  deriving DecidableEq, Repr, Inhabited

inductive AnswerError where
  | invalid (errors : List Form.Error)
  | noUsage
  deriving DecidableEq, Repr

namespace Answer

open Form in
def checked (content input output model provider : Json) (latencyMs : Int) :
    Except AnswerError Answer :=
  let member {α : Type} (name : String) (r : Form.Reader α) (j : Json) : Checked α :=
    (r (Datum.ofJson j)).under (.name name)
  (Checked.apply (Checked.apply (Checked.apply (Checked.apply (Checked.apply
    ((member "content" text content).map Answer.mk)
    (member "input_tokens" integer input))
    (member "output_tokens" integer output))
    (member "model" text model))
    (member "provider" text provider))
    (.ok latencyMs)).mapError .invalid

end Answer

/-- Reads a response: the first choice, or the first block that holds content. -/
def Adapter.answer (a : Adapter) (c : Conversation) (latencyMs : Int) :
    RawResponse → Except AnswerError Answer
  | .chat choices usage =>
    let content := (choices.head?.map fun j => Adapter.orElse j (.str "")).getD (.str "")
    let used := usage.getD ⟨.int 0, .int 0⟩
    Answer.checked content used.input used.output (a.modelOf c) a.provider latencyMs
  | .messages _ none _ => .error .noUsage
  | .messages blocks (some used) model =>
    Answer.checked (blocksContent c.format.isSome blocks) used.input used.output model a.provider
      latencyMs

end JudgedLint.Model
