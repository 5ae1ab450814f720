import JudgedLint.Model.Adapter
import JudgedLint.Model.ClientError

/-! Adapter paths: dotted names of adapters, a module first and then a member of it.

A path is followed from the outermost package inwards, and what it leads to may turn out to be
something that no adapter can be made of. -/
namespace JudgedLint.Model

inductive Target where
  | adapter (i : Interface)
  /-- A class whose members, in order, are left to its subclasses. -/
  | outline (name : String) (members : List String)
  | module
  | value (type : String)
  deriving DecidableEq, Repr

namespace AdapterPath

def chat : String := "ailint.llm.adapters.openai_adapter.OpenAIAdapter"
def messages : String := "ailint.llm.adapters.anthropic_adapter.AnthropicAdapter"

/-- Every module that a path may lead to. -/
def modules : List String :=
  ["ailint", "ailint.main", "ailint.version",
   "ailint.cache", "ailint.cache.base_cache_store", "ailint.cache.fingerprint",
   "ailint.cache.json_store", "ailint.cache.models",
   "ailint.config", "ailint.config.loader", "ailint.config.models", "ailint.config.settings",
   "ailint.core", "ailint.core.models",
   "ailint.files", "ailint.files.resolver",
   "ailint.lint", "ailint.lint.engine", "ailint.lint.judge", "ailint.lint.report_only",
   "ailint.lint.summary",
   "ailint.llm", "ailint.llm.adapters", "ailint.llm.adapters.anthropic_adapter",
   "ailint.llm.adapters.openai_adapter", "ailint.llm.base_client", "ailint.llm.client_factory",
   "ailint.llm.model_map", "ailint.llm.models", "ailint.llm.retry",
   "ailint.logging", "ailint.logging.context", "ailint.logging.handlers", "ailint.logging.logger",
   "ailint.reporting", "ailint.reporting.base_reporter", "ailint.reporting.console_reporter",
   "ailint.reporting.json_report",
   "ailint.rules", "ailint.rules.generate_flow", "ailint.rules.generator", "ailint.rules.globs",
   "ailint.rules.matcher"]

def clientOutline : Target :=
  .outline "BaseLLMClient" ["complete", "credential_name", "provider_name"]

def storeOutline : Target :=
  .outline "BaseCacheStore" ["clear", "load", "lookup", "save", "status", "store"]

def reporterOutline : Target := .outline "BaseReporter" ["report"]

/-- The members of modules, but for the modules inside them, by their whole path. -/
def members : List (String × Target) :=
  [(chat, .adapter .chat), (messages, .adapter .messages),
   ("ailint.llm.base_client.BaseLLMClient", clientOutline),
   ("ailint.llm.client_factory.BaseLLMClient", clientOutline),
   ("ailint.llm.adapters.openai_adapter.BaseLLMClient", clientOutline),
   ("ailint.llm.adapters.anthropic_adapter.BaseLLMClient", clientOutline),
   ("ailint.lint.judge.BaseLLMClient", clientOutline),
   ("ailint.rules.generator.BaseLLMClient", clientOutline),
   ("ailint.cache.base_cache_store.BaseCacheStore", storeOutline),
   ("ailint.cache.json_store.BaseCacheStore", storeOutline),
   ("ailint.reporting.base_reporter.BaseReporter", reporterOutline),
   ("ailint.reporting.console_reporter.BaseReporter", reporterOutline),
   ("ailint.__version__", .value "str"), ("ailint.version.__version__", .value "str"),
   ("ailint.main.__version__", .value "str"),
   ("ailint.llm.adapters.openai_adapter.OPENROUTER_BASE_URL", .value "str"),
   ("ailint.llm.adapters.openai_adapter.OLLAMA_BASE_URL", .value "str"),
   ("ailint.llm.adapters.openai_adapter.logger", .value "Logger"),
   ("ailint.llm.adapters.anthropic_adapter.logger", .value "Logger"),
   ("ailint.llm.client_factory.logger", .value "Logger"),
   ("ailint.llm.client_factory._PROVIDER_REGISTRY", .value "dict"),
   ("ailint.llm.model_map.OPENROUTER_MODELS", .value "dict"),
   ("ailint.llm.model_map.ANTHROPIC_MODELS", .value "dict"),
   ("ailint.llm.model_map.DEFAULT_TABLES", .value "dict"),
   ("ailint.llm.model_map.DEFAULT_PASSTHROUGH", .value "frozenset"),
   ("ailint.llm.retry.RETRYABLE_ERROR_TYPES", .value "frozenset"),
   ("ailint.llm.retry.DEFAULT_RETRY_POLICY", .value "RetryPolicy"),
   ("ailint.llm.retry.logger", .value "Logger")]

def isPackage (module : String) : Bool := modules.any (·.startsWith (module ++ "."))

/-- The modules on the way to a module, that one last. -/
def stages (module : String) : List String :=
  let parts := Text.split '.' module
  (List.range parts.length).map fun n => Text.join "." (parts.take (n + 1))

/-- Checks that a module is there, from the outermost package inwards. -/
def findModule (module : String) : Except ClientError Unit :=
  if module.isEmpty then .error .emptyModule
  else if module.startsWith "." then .error (.relativeModule module)
  else
    match (stages module).find? fun s => !modules.contains s with
    | none => .ok ()
    | some missing =>
      match Text.cutLast? '.' missing with
      | none => .error (.noModule missing none)
      | some (outer, _) =>
        .error (.noModule missing (if isPackage outer then none else some outer))

def follow (path : String) : Except ClientError Target :=
  match Text.cutLast? '.' path with
  | none => .error .malformedPath
  | some (module, member) => do
    findModule module
    match members.lookup path with
    | some target => return target
    | none =>
      if modules.contains path then return .module else throw (.noMember module member)

end AdapterPath

def Target.adapter? (settings : List (String × Json)) : Target → Except ClientError Adapter
  | .adapter i =>
    if (settings.lookup "self").isSome then .error (.givenTwice s!"{i.adapterName}.__init__" "self")
    else .ok (.ofSettings i settings)
  | .outline name members =>
    if settings.isEmpty then .error (.incomplete name members) else .error (.noSettings name)
  | .module => .error (.notCallable "module")
  | .value type => .error (.notCallable type)

end JudgedLint.Model
