import JudgedLint.Form.Reader
import JudgedLint.Settings.Dotenv
import JudgedLint.Workspace.Tree
import JudgedLint.Text.Line

/-! Settings of a deployment: credentials, where the cache lies, and logging. They come from what
the caller sets, the environment, a file of variables, and defaults, in this order. -/
namespace JudgedLint

open Workspace (Path Tree)

structure Settings where
  openRouterKey : String
  anthropicApiKey : String
  requestTimeout : Float
  cacheDir : Path
  logLevel : String
  logFormat : String
  logFile : Option Path
  logRotation : String
  logRetention : Int

namespace Settings

/-- Where variables are looked for beside the environment. -/
def dotenvPath : Path := Path.ofText ".env"

def names : List String :=
  ["open_router_key", "anthropic_api_key", "request_timeout_s", "cache_dir", "log_level",
   "log_format", "log_file", "log_rotation", "log_retention"]

inductive Error where
  | invalid (errors : List Form.Error)
  | undecodable (e : Text.Utf8Error)

open Form

/-- A number greater than a bound. -/
def positive : Reader Float := fun d => do
  let x ← (match d.bare with
    | .float x => pure x
    | .int n =>
      let x := Decimal.floatOfInt n
      if x.isInf then fail .notNumber else pure x
    | .bool b => pure (if b then 1.0 else 0.0)
    | .str s => do
      match numberOfText? (← wellFormed s) with
      | some x => pure x
      | none => fail .numberText
    | _ => fail .notNumber : Checked Float)
  if x > 0.0 then return x else fail (.above 0)

def path : Reader Path := fun d =>
  match d.bare with
  | .str s => .ok (Path.ofText s)
  | _ => fail .notPath

def level : Reader String := fun d =>
  let choices := ["DEBUG", "INFO", "WARNING", "ERROR"].map fun n => (n, n)
  match d.str? with
  | some s => oneOf choices (.str (Text.upperAscii s))
  | none => oneOf choices d

def reader : Reader Settings := record "Settings" fun d =>
  Checked.apply (Checked.apply (Checked.apply (Checked.apply (Checked.apply (Checked.apply
    (Checked.apply (Checked.apply
    ((withDefault "open_router_key" "" text d).map Settings.mk)
    (withDefault "anthropic_api_key" "" text d))
    (withDefault "request_timeout_s" 120.0 positive d))
    (withDefault "cache_dir" (Path.ofText ".ai-lint") path d))
    (withDefault "log_level" "WARNING" level d))
    (withDefault "log_format" "text" (oneOf [("json", "json"), ("text", "text")]) d))
    (withDefault "log_file" none (optional path) d))
    (withDefault "log_rotation" "10MB" text d))
    (withDefault "log_retention" 5 integer d)

/-- Variables by name in lower case; of two that differ only in case the later counts. -/
def lowered (vars : List Binding) : List Binding :=
  (vars.map fun v => (Text.lowerAscii v.1, v.2)).reverse

def fileVariables (t : Tree) (env : List (String × String)) : Except Error (List Binding) :=
  match t.read dotenvPath with
  | .error _ => .ok []
  | .ok bytes =>
    match Text.utf8Decode bytes with
    | .error e => .error (.undecodable e)
    | .ok s => .ok (Dotenv.read (env ++ [("HOME", t.root)]) (Text.universalNewlines s))

def load (t : Tree) (env : List (String × String)) (overrides : List (String × Datum)) :
    Except Error Settings := do
  let file ← fileVariables t env
  let fileVars := lowered file
  let envVars := lowered (env.map fun v => (v.1, some v.2))
  let value (name : String) : Option (Datum × Datum) :=
    let found : Option Datum :=
      match overrides.lookup name with
      | some d => some d
      | none =>
        match (envVars.lookup name).join with
        | some s => some (.str s)
        | none => (fileVars.lookup name).join.map .str
    found.map fun d => (.str name, d)
  (reader (.map (names.filterMap value))).mapError .invalid

end Settings
end JudgedLint
