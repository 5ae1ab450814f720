import JudgedLint.Lint.Run
import JudgedLint.Log.Sink
import JudgedLint.Model.Registry
import JudgedLint.Report.Console
import JudgedLint.Report.File
import JudgedLint.Workspace.Selection

/-! What a command finds when it starts, what it has done so far, and the steps it is made of. A
step may fail; what was done before stays done. -/
namespace JudgedLint.Command

/-- What lies outside the program and does not change while a command runs. -/
structure Surroundings (σ : Type) where
  environment : List (String × String)
  /-- What `git` answers when it is asked for changed files. -/
  git : Workspace.GitReply
  /-- The lines that are typed, and what happens when there are no more. -/
  typed : List String
  whenNoneTyped : Failure
  model : Model.Source σ
  /-- The random number that scales pauses. -/
  random : Float
  runId : String
  now : Calendar.Moment
  /-- The moment at which a result is stored, by the count of results stored so far. -/
  stamp : Nat → Calendar.Moment

/-- The world as it is, and what has been written, asked of `git` and asked of a model. -/
structure Session (σ : Type) where
  world : Lint.World σ
  sink : Log.Sink
  output : String := ""
  errors : String := ""
  git : List (List String) := []
  adapter : Option Model.Adapter := none
  requests : List Model.Request := []

abbrev Act (σ α : Type) := ExceptT Failure (StateM (Session σ)) α

namespace Session

variable {σ : Type}

def write (text : String) (s : Session σ) : Session σ := { s with output := s.output ++ text }

def warn (text : String) (s : Session σ) : Session σ := { s with errors := s.errors ++ text }

def note (now : Calendar.Moment) (records : List Log.Record) (s : Session σ) : Session σ :=
  let (text, tree) := s.sink.write now s.world.tree records
  { s with errors := s.errors ++ text, world := { s.world with tree } }

def ask (requests : List Model.Request) (s : Session σ) : Session σ :=
  { s with requests := s.requests ++ requests }

end Session

structure Display where
  progress : Lint.Progress → String
  report : List Lint.Result → Lint.Summary → String

namespace Display

def silent : Display := ⟨fun _ => "", fun _ _ => ""⟩

def progressLine (p : Lint.Progress) : String :=
  let origin := if p.cached then "cache" else "api"
  s!"  [{p.completed}/{p.total}] ({origin}) {p.job.rule.id} — {p.job.file}\n"

def progressCount (p : Lint.Progress) : String :=
  s!"\r  Linting... {p.completed}/{p.total}" ++ (if p.completed == p.total then "\n" else "")

def live (verbose : Bool) : Display :=
  ⟨if verbose then progressLine else progressCount, fun rs s => Report.console false rs s ++ "\n"⟩

end Display

namespace Session

variable {σ : Type}

/-- Shows an event of a run; `completed` is the number that a job completed by it has. -/
def showEvent (d : Display) (now : Calendar.Moment) (total completed : Nat) (e : Lint.Event)
    (s : Session σ) : Session σ :=
  match e with
  | .noted r => s.note now [r]
  | .called request => s.ask [request]
  | .answered _ _ _ => s
  | .reported results summary => s.write (d.report results summary)
  | e =>
    match e.progress? total completed with
    | some p => s.warn (d.progress p)
    | none => s

def showHistory (d : Display) (now : Calendar.Moment) (total : Nat) :
    Nat → Lint.History → Session σ → Session σ
  | _, [], s => s
  | completed, e :: rest, s =>
    let next := if (e.progress? total completed).isSome then completed + 1 else completed
    showHistory d now total next rest (s.showEvent d now total completed e)

end Session

namespace Act

variable {σ α : Type}

/-- A step that may fail and changes nothing. -/
def ofExcept (r : Except Failure α) : Act σ α := ExceptT.mk (pure r)

def print (line : String) : Act σ Unit := modify (Session.write (line ++ "\n"))

def note (g : Surroundings σ) (records : List Log.Record) : Act σ Unit :=
  modify (Session.note g.now records)

def tree : Act σ Workspace.Tree := do return (← get).world.tree

def setTree (t : Workspace.Tree) : Act σ Unit :=
  modify fun s => { s with world := { s.world with tree := t } }

def leaveReport (g : Surroundings σ) (file : String) (code : Lint.ExitCode)
    (error : Option String) :
    Act σ Unit := do
  let report := Report.document g.now [] .empty code.toNat error
  let (written, t) := Report.write (← tree) file report
  setTree t
  let (place, record) ← ofExcept (written.mapError .file)
  note g [record]
  print (Report.writtenText place)

def config (g : Surroundings σ) (file : String) : Act σ Lint.Config := do
  let path := Workspace.Path.ofText file
  let c ← ofExcept ((Lint.Config.load .default (← tree) path).mapError .ofLoad)
  note g [Lint.Config.loadedRecord path c]
  return c

def store (settings : Settings) : Act σ Cache.Store := do
  ofExcept ((Cache.Store.inDir (← tree) settings.cacheDir).mapError .file)

/-- The variable that holds the credential of a provider, and its value; a local provider needs
none. -/
def credential (settings : Settings) : Lint.Provider → Option (String × String)
  | .openrouter => some ("OPEN_ROUTER_KEY", settings.openRouterKey)
  | .anthropic => some ("ANTHROPIC_API_KEY", settings.anthropicApiKey)
  | .ollama => none

def needCredential (settings : Settings) (c : Lint.Config) : Act σ Unit :=
  match credential settings c.provider with
  | some (name, "") => ofExcept (.error (.config (.missingCredential name c.provider.name)))
  | _ => pure ()

def adapter (g : Surroundings σ) (settings : Settings) (c : Lint.Config) : Act σ Model.Adapter := do
  note g [Model.Registry.createdRecord c.provider.name]
  let a ← ofExcept ((Model.Registry.default.adapter c.provider.name (some settings) c.providerUrl
    []).mapError .client)
  modify fun s => { s with adapter := some a }
  return a

end Act
end JudgedLint.Command
