import JudgedLint.Command.LintFiles
import JudgedLint.Draft.Dialogue

/-! The whole program: the line is read, settings and log are set up, and the command runs.

Failures of a command are reported on the error stream and become an exit code. Failures of the
settings or the log, which come before any command, end the program at once. -/
namespace JudgedLint.Command

open Lint (Config ExitCode)

variable {σ : Type}

def validateConfig (g : Surroundings σ) (file : String) : Act σ ExitCode := do
  let c ← Act.config g file
  Act.print "Configuration is valid"
  Act.print s!"  Provider: {c.provider.name}"
  match c.providerUrl with
  | none | some "" => pure ()
  | some url => Act.print s!"  Provider URL: {url}"
  Act.print s!"  Model: {c.model}"
  Act.print s!"  Concurrency: {c.concurrency}"
  Act.print s!"  Git base: {c.gitBase}"
  let ids := Text.join ", " c.ruleIds
  Act.print s!"  Rules: {c.rules.length} ({ids})"
  return .ok

/-- The configuration for rules to be added where there is no file yet. -/
def emptyConfig : Config :=
  ⟨.openrouter, none, "gemini-flash", Config.defaultConcurrency, "main", []⟩

def talkText : Draft.Talk → String
  | .ask text => text
  | .say text => text ++ "\n"

def draftRule (g : Surroundings σ) (settings : Settings) (file : String) : Act σ ExitCode := do
  let isThere ← Act.ofExcept (((← Act.tree).exists (Workspace.Path.ofText file)).mapError .file)
  let c ← if isThere then Act.config g file else pure emptyConfig
  Act.needCredential settings c
  let _ ← Act.adapter g settings c
  let model ← Act.ofExcept
    ((Model.Catalog.default.resolve c.provider.name c.model).mapError .catalog)
  let world := (← get).world
  let d := Draft.Dialogue.run g.model { model } file ⟨g.typed, g.whenNoneTyped⟩ world.tree
    world.source
  modify fun s =>
    let s := { s with world := { world with tree := d.tree, source := d.source } }
    ((s.ask d.requests).write (String.join (d.talk.map talkText))).note g.now d.notes
  Act.ofExcept d.outcome

def clearCacheFile (settings : Settings) : Act σ ExitCode := do
  let t ← Act.tree
  let store ← Act.store settings
  let (_, t) ← Act.ofExcept ((store.clear t).mapError .file)
  Act.setTree t
  Act.print "Cache cleared"
  return .ok

def showCacheStatus (g : Surroundings σ) (settings : Settings) : Act σ ExitCode := do
  let t ← Act.tree
  let (store, records) ← Act.ofExcept (((← Act.store settings).load t).mapError .ofCacheLoad)
  Act.note g records
  let (entries, size) ← Act.ofExcept ((store.status (← Act.tree)).mapError .file)
  Act.print s!"Cache entries: {entries}"
  let kilobytes := Decimal.fixedRatio 2 size 1024
  Act.print s!"Cache size: {kilobytes} KB"
  return .ok

def perform (g : Surroundings σ) (settings : Settings) : Command → Act σ ExitCode
  | .lint o => lintFiles g settings o
  | .validate file => validateConfig g file
  | .generateRule file => draftRule g settings file
  | .clearCache => clearCacheFile settings
  | .cacheStatus => showCacheStatus g settings

/-- Turns the failure of a command into an exit code, and says what failed. -/
def settle (g : Surroundings σ) (debug : Bool) : Except Failure ExitCode → Session σ →
    ExitCode × Session σ
  | .ok code, s => (code, s)
  | .error .interrupted, s =>
    (.interrupted, s.note g.now [Log.record .info "cli" "Interrupted by user"])
  | .error f, s =>
    let record :=
      { Log.record .error "cli" s!"Fatal error: {f.message}" with
        exception := if debug then some f.shown else none }
    let s := if f.isExpected then s else s.note g.now [record]
    (.fatal, s.warn s!"Error: {f.message}\n")

inductive Ending (σ : Type) where
  /-- Reading the line stopped the program before it began. -/
  | stopped (s : Stop)
  /-- Settings or log could not be set up. -/
  | failed (f : Failure)
  | finished (code : ExitCode) (s : Session σ)

def setUp (g : Surroundings σ) (debug : Bool) (t : Workspace.Tree) :
    Except Failure (Settings × Log.Sink × Workspace.Tree) := do
  let settings ← (Settings.load t g.environment []).mapError .ofSettings
  let level := if debug then "DEBUG" else settings.logLevel
  let (sink, t) ← (Log.Sink.configure t level settings.logFormat settings.logFile
    settings.logRotation settings.logRetention).mapError .sink
  return (settings, sink, t)

/-- Runs the program on the words of a command line. -/
def run (g : Surroundings σ) (words : List String) (world : Lint.World σ) : Ending σ :=
  match Invocation.ofWords words with
  | .error s => .stopped s
  | .ok i =>
    match setUp g i.debug world.tree with
    | .error f => .failed f
    | .ok (settings, sink, t) =>
      let s : Session σ := { world := { world with tree := t }, sink }
      match i.command with
      | none => .finished .fatal (s.write Grammar.top.help)
      | some command =>
        let (outcome, s) := (perform g settings command).run.run s
        let (code, s) := settle g i.debug outcome s
        .finished code s

/-- The exit code and what is written to the two streams when reading a line stops the program. -/
def Stop.ending : Stop → Nat × String × String
  | .help g => (0, g.help, "")
  | .version => (0, s!"{programName} {programVersion}\n", "")
  | .refused g fault => (2, "", g.usage ++ s!"\n{g.program}: error: {fault.message}\n")

end JudgedLint.Command
