import JudgedLint.Lint.Config
import JudgedLint.Report.File

/-! The grammar of the command line: the commands, their options, and what else may stand on a
line. -/
namespace JudgedLint.Command

inductive Flag where
  | help
  | version
  | debug
  | all
  | changed
  | base
  | config
  | verbose
  | reportOnly
  | reportFile
  deriving DecidableEq, Repr, Inhabited

structure Switch where
  flag : Flag
  /-- What the option is called, a short name first. -/
  names : List String
  /-- The word that stands for the value in help texts, if the option takes one. -/
  value : Option String := none
  help : String := ""
  deriving DecidableEq, Repr, Inhabited

def Switch.title (s : Switch) : String := Text.join "/" s.names

/-- What stands on a line beside options. -/
inductive Operands where
  | none
  | files (name help : String)
  /-- One of several commands and whatever follows it. Each has a name and a help text. -/
  | command (name : String) (choices : List (String × String))
  deriving DecidableEq, Repr, Inhabited

structure Grammar where
  program : String
  description : String := ""
  switches : List Switch
  /-- Options of which a line may hold one at most. -/
  exclusive : List Flag := []
  operands : Operands := .none
  deriving DecidableEq, Repr, Inhabited

def programName : String := "ai-lint"
def programVersion : String := "0.4.0"

def programOf (words : List String) : String := Text.join " " (programName :: words)

def helpSwitch : Switch :=
  { flag := .help, names := ["-h", "--help"], help := "show this help message and exit" }

def configSwitch (help : String) : Switch :=
  { flag := .config, names := ["-c", "--config"], value := some "CONFIG", help }

namespace Grammar

def top : Grammar where
  program := programName
  description :=
    s!"ai-lint v{programVersion} — Lint files with natural-language rules judged by an LLM"
  switches :=
    [helpSwitch,
     { flag := .version, names := ["--version"], help := "show program's version number and exit" },
     { flag := .debug, names := ["--debug"], help := "Enable debug logging" }]
  operands := .command "command"
    [("lint", "Lint files against the configured rules"),
     ("validate", "Validate the config file"),
     ("generate-rule", "Generate a rule from a description"),
     ("cache", "Manage the result cache")]

def lint : Grammar where
  program := programOf ["lint"]
  switches :=
    [helpSwitch,
     { flag := .all, names := ["--all"], help := "Lint every file matching a rule glob" },
     { flag := .changed, names := ["--changed"]
       help := "Lint files changed since the git base branch" },
     { flag := .base, names := ["--base"], value := some "BASE"
       help := "Base branch for --changed (default: git_base from config)" },
     configSwitch s!"Config file (default: {Lint.Config.defaultPath})",
     { flag := .verbose, names := ["-v", "--verbose"], help := "Print one progress line per job" },
     { flag := .reportOnly, names := ["--report-only"]
       help := "Write a JSON report instead of printing results" },
     { flag := .reportFile, names := ["--report-file"], value := some "REPORT_FILE"
       help := s!"Report path for --report-only (default: {Report.defaultFile})" }]
  exclusive := [.all, .changed]
  operands := .files "files" "Files to lint"

def validate : Grammar where
  program := programOf ["validate"]
  switches := [helpSwitch, configSwitch ""]

def generateRule : Grammar where
  program := programOf ["generate-rule"]
  switches := [helpSwitch, configSwitch ""]

def cache : Grammar where
  program := programOf ["cache"]
  switches := [helpSwitch]
  operands := .command "cache_command"
    [("clear", "Delete the cache file"), ("status", "Show cache entries and size")]

def clearCache : Grammar where
  program := programOf ["cache", "clear"]
  switches := [helpSwitch]

def cacheStatus : Grammar where
  program := programOf ["cache", "status"]
  switches := [helpSwitch]

end Grammar
end JudgedLint.Command
