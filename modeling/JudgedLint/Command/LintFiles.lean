import JudgedLint.Command.Basic
import JudgedLint.Command.Session
import JudgedLint.Report.Unattended

/-! The command that checks files: which ones, with which rules, and what is shown of the run.

With a report file nothing else is shown, and every failure is written into the report. -/
namespace JudgedLint.Command

open Lint (Config ExitCode)

variable {σ : Type}

/-- The files to check; none if the line names none. -/
def chosenFiles (g : Surroundings σ) (o : LintOptions) (c : Config) :
    Act σ (Option (List String)) := do
  let t ← Act.tree
  let start := Workspace.Path.ofText t.root
  if o.all then
    some <$> Act.ofExcept ((t.selectMatching start (Lint.allGlobs c.rules)).mapError .pattern)
  else if o.changed then
    let base := Workspace.baseBranch o.base c.gitBase
    modify fun s => { s with git := s.git ++ [Workspace.gitArguments base] }
    let files ← Act.ofExcept ((t.selectChanged start g.git).mapError .ofSelection)
    Act.note g [Workspace.changedRecord base files]
    return some files
  else if o.files.isEmpty then return none
  else
    let (files, records) := t.selectNoted start o.files
    Act.note g records
    some <$> Act.ofExcept (files.mapError .file)

def nothingChosen : String := "No files to lint. Use --all, --changed, or specify explicit files."
def nothingFound : String := "No files to lint."

def endWithoutFiles (g : Surroundings σ) (o : LintOptions) (message : String) : Act σ ExitCode := do
  if o.reportOnly then Act.leaveReport g o.reportFile .ok none
  else Act.print message
  return .ok

def openingText (files : List String) (c : Config) : String :=
  let place := match c.providerUrl with
    | some url => if url.isEmpty then c.provider.name else s!"{c.provider.name} @ {url}"
    | none => c.provider.name
  s!"Linting {files.length} files against {c.rules.length} rules " ++
    s!"(provider: {place}, model: {c.model})...\n"

def runSetting (g : Surroundings σ) (a : Model.Adapter) (c : Config) : Lint.Setting σ where
  judge :=
    { client := a.client, defaultModel := c.model, catalog := .default, random := g.random }
  model := g.model
  rules := c.rules
  slots := c.concurrency
  runId := g.runId
  stamp := g.stamp

def runShown (g : Surroundings σ) (o : LintOptions) (c : Config) (setting : Lint.Setting σ)
    (store : Cache.Store) (files : List String) : Act σ ExitCode := do
  Act.print (openingText files c)
  let r := Lint.Run.run setting store files (← get).world
  modify fun s =>
    { s with world := r.world }.showHistory (.live o.verbose) g.now r.total 1 r.history
  Act.ofExcept (r.outcome.map (·.code))

def runReported (g : Surroundings σ) (o : LintOptions) (setting : Lint.Setting σ)
    (store : Cache.Store) (files : List String) : Act σ ExitCode := do
  let r := Report.Unattended.run g.now o.reportFile setting store files (← get).world
  modify fun s => { s with world := r.world }.showHistory .silent g.now 0 1 r.history
  for line in r.printed do Act.print line
  Act.ofExcept r.outcome

def checkFiles (g : Surroundings σ) (settings : Settings) (o : LintOptions) : Act σ ExitCode := do
  let c ← Act.config g o.config
  Act.needCredential settings c
  match ← chosenFiles g o c with
  | none => endWithoutFiles g o nothingChosen
  | some [] => endWithoutFiles g o nothingFound
  | some files =>
    let a ← Act.adapter g settings c
    let store ← Act.store settings
    let setting := runSetting g a c
    if o.reportOnly then runReported g o setting store files
    else runShown g o c setting store files

def lintFiles (g : Surroundings σ) (settings : Settings) (o : LintOptions) : Act σ ExitCode :=
  tryCatch (checkFiles g settings o) fun f => do
    if !o.reportOnly then throw f
    let failed := Log.record .debug "cli" "Report-only lint failed"
    Act.note g [{ failed with exception := some f.shown }]
    Act.leaveReport g o.reportFile .fatal (some f.messageOrKind)
    return .fatal

end JudgedLint.Command
