import JudgedLint.Log.Record
import JudgedLint.Model.AdapterPath
import JudgedLint.Settings.Basic

/-! The registry of providers: which adapter serves which provider, and with what settings. -/
namespace JudgedLint.Model

/-- Provider names, each with the dotted path of its adapter. -/
abbrev Registry := List (String × String)

namespace Registry

def default : Registry :=
  [("openrouter", AdapterPath.chat), ("ollama", AdapterPath.chat),
   ("anthropic", AdapterPath.messages)]

def loggerPart : String := "llm.client_factory"

/-- Puts a provider into the registry, in the place of an earlier one of the same name. -/
def register (r : Registry) (name path : String) : Registry × Log.Record :=
  (Json.put name path r, Log.record .info loggerPart s!"Registered LLM provider: {name} → {path}")

def names (r : Registry) : List String := (r.map (·.1)).mergeSort fun a b => a ≤ b

def setDefault (name : String) (value : Json) (settings : List (String × Json)) :
    List (String × Json) :=
  if (settings.lookup name).isSome then settings else settings ++ [(name, value)]

def setDefaultIf (condition : Bool) (name : String) (value : Json)
    (settings : List (String × Json)) : List (String × Json) :=
  if condition then setDefault name value settings else settings

/-- The settings of a provider's adapter: those given, then what the provider needs. -/
def complete (provider : String) (s : Option Settings) (url : Option String)
    (given : List (String × Json)) : List (String × Json) :=
  let url := url.bind fun u => if u.isEmpty then none else some u
  let keyed (key : Settings → String) (given : List (String × Json)) : List (String × Json) :=
    match s with
    | some s => setDefault "api_key" (.str (key s)) given
    | none => given
  let given := match s with
    | some s => setDefault "timeout_s" (.float s.requestTimeout) given
    | none => given
  if provider == "openrouter" then
    let given := setDefault "credential_name" (.str "OPEN_ROUTER_KEY") <|
      setDefault "provider" (.str "openrouter") given
    setDefaultIf url.isSome "base_url" (.str (url.getD "")) (keyed Settings.openRouterKey given)
  else if provider == "ollama" then
    let place := url.getD localUrl
    setDefault "credential_name" (.str s!"Ollama endpoint at {place}") <|
      setDefault "base_url" (.str place) <| setDefault "provider" (.str "ollama") given
  else if provider == "anthropic" then keyed Settings.anthropicApiKey given
  else given

def createdRecord (provider : String) : Log.Record :=
  Log.record .debug loggerPart s!"Creating LLM client: provider={provider}"

def taken : List String := ["provider", "settings", "provider_url"]

def adapter (r : Registry) (provider : String) (s : Option Settings) (url : Option String)
    (given : List (String × Json)) : Except ClientError Adapter :=
  match given.find? fun m => taken.contains m.1 with
  | some (name, _) => .error (.givenTwice "create_llm_client" name)
  | none =>
    match r.lookup provider with
    | none => .error (.unsupported provider r.names)
    | some path => do
      let target ← AdapterPath.follow path
      target.adapter? (complete provider s url given)

end Registry
end JudgedLint.Model
