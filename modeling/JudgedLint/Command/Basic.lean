import JudgedLint.Command.Help
import JudgedLint.Command.Line

/-! The commands of the program, and how they are read from the words of a command line. -/
namespace JudgedLint

namespace Command

structure LintOptions where
  files : List String
  all : Bool
  changed : Bool
  base : Option String
  config : String
  verbose : Bool
  reportOnly : Bool
  reportFile : String
  deriving DecidableEq, Repr

end Command

inductive Command where
  | lint (o : Command.LintOptions)
  | validate (config : String)
  | generateRule (config : String)
  | clearCache
  | cacheStatus
  deriving DecidableEq, Repr

/-- What a command line asks for; without a command, for the help text. -/
structure Invocation where
  debug : Bool
  command : Option Command
  deriving DecidableEq, Repr

namespace Command

def Reading.configPath (r : Reading) : String := (r.value? .config).getD Lint.Config.defaultPath

def LintOptions.ofReading (r : Reading) : LintOptions where
  files := r.files
  all := r.has .all
  changed := r.has .changed
  base := r.value? .base
  config := r.configPath
  verbose := r.has .verbose
  reportOnly := r.has .reportOnly
  reportFile := (r.value? .reportFile).getD Report.defaultFile

/-- A command without operands of its own; the words that it does not know are given apart. -/
def plain (g : Grammar) (words : List String) (command : Reading → Command) :
    Except Stop (Option Command × List String) := do
  let r ← Reading.ofWords g words
  return (some (command r), r.strangers)

def ofCacheWords (words : List String) : Except Stop (Option Command × List String) := do
  let r ← Reading.ofWords .cache words
  let (command, strangers) ← match r.command with
    | some ("clear", words) => plain .clearCache words fun _ => .clearCache
    | some (_, words) => plain .cacheStatus words fun _ => .cacheStatus
    | none => pure (none, [])
  return (command, r.strangers ++ strangers)

def ofWords (name : String) (words : List String) : Except Stop (Option Command × List String) :=
  match name with
  | "lint" => plain .lint words fun r => .lint (.ofReading r)
  | "validate" => plain .validate words fun r => .validate r.configPath
  | "generate-rule" => plain .generateRule words fun r => .generateRule r.configPath
  | _ => ofCacheWords words

end Command

namespace Invocation

open Command (Grammar Reading Stop)

/-- Reads a command line. Words that nobody knows are refused at the end. -/
def ofWords (words : List String) : Except Stop Invocation := do
  let r ← Reading.ofWords .top words
  let (command, strangers) ← match r.command with
    | some (name, words) => Command.ofWords name words
    | none => pure (none, [])
  let strangers := r.strangers ++ strangers
  if strangers.isEmpty then return ⟨r.has .debug, command⟩
  else throw (.refused .top (.strangers strangers))

end Invocation
end JudgedLint
