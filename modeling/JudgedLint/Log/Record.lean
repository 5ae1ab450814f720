import JudgedLint.Json.Basic

/-! Log records: level, logger and message, and the context in which they were made. -/
namespace JudgedLint.Log

inductive Level where
  | debug
  | info
  | warning
  | error
  | critical
  deriving DecidableEq, Repr, Inhabited

def Level.number : Level → Nat
  | .debug => 10
  | .info => 20
  | .warning => 30
  | .error => 40
  | .critical => 50

def Level.name : Level → String
  | .debug => "DEBUG"
  | .info => "INFO"
  | .warning => "WARNING"
  | .error => "ERROR"
  | .critical => "CRITICAL"

/-- What is known of the work at hand: the run, and inside it the rule and the file of a job. -/
structure Context where
  run : Option String := none
  rule : Option String := none
  file : Option String := none
  deriving DecidableEq, Repr, Inhabited

def Context.known (c : Context) : List (String × String) :=
  (c.run.map ("run_id", ·)).toList ++ (c.rule.map ("rule_id", ·)).toList ++
    (c.file.map ("file_path", ·)).toList

def Context.toJson (c : Context) : Json := .obj (c.known.map fun p => (p.1, .str p.2))

structure Record where
  level : Level
  logger : String
  message : String
  context : Context := {}
  exception : Option String := none
  deriving DecidableEq, Repr, Inhabited

/-- Every logger of the program stands below this one. -/
def rootName : String := "ailint"

def loggerName (part : String) : String := rootName ++ "." ++ part

def record (level : Level) (part message : String) : Record :=
  { level, logger := loggerName part, message }

def Record.within (c : Context) (r : Record) : Record := { r with context := c }

def Record.line (r : Record) : String := s!"{r.level.name} {r.logger}: {r.message}"

def atLeast (level : Level) (rs : List Record) : List Record :=
  rs.filter fun r => level.number ≤ r.level.number

end JudgedLint.Log
