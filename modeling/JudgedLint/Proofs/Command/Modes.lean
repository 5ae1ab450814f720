import JudgedLint.Proofs.Command.Upshot
import JudgedLint.Proofs.Command.Words

/-! The flag that asks for a report changes where the results go and nothing else. A line with it and
one without it are read alike, ask the same of the model, come to the same exit code and leave the same
files, the report apart. -/
namespace JudgedLint.Command

open Lint (ExitCode)
open Report (Told)
open Session (Shows)
open Workspace (LeadsTo Path Tree)

variable {σ : Type} {g : Surroundings σ} {settings : Settings} {o : LintOptions} {s s' : Session σ}

/-- What a report says of a command that came to an exit code: the code, an error just when the code is
two, and otherwise what the engine found, if it ran. -/
structure Recounts (told : Told) (code : ExitCode) (ran : Option (Lint.Run σ)) : Prop where
  exitCode : told.code = code.toNat
  error : (∃ e, told.error = some e ∧ e ≠ "") ↔ code = .fatal
  clean : code ≠ .fatal → told.error = none
  found : code ≠ .fatal → ∀ r, ran = some r →
    ∃ c, r.outcome = .ok c ∧ told.results = c.results ∧ told.summary = c.summary
  idle : code ≠ .fatal → ran = none → told.results = [] ∧ told.summary = .empty

theorem upshot_engineRun? (g : Surroundings σ) (settings : Settings) (o : LintOptions)
    (s : Session σ) (h : (upshot g settings o s).code ≠ .fatal) :
    match engineRun? g settings o s with
    | none => (upshot g settings o s).results = [] ∧ (upshot g settings o s).summary = .empty
    | some r => ∃ c, r.outcome = .ok c ∧ (upshot g settings o s).results = c.results ∧
        (upshot g settings o s).summary = c.summary := by
  unfold upshot engineRun? at *
  split at h
  · exact absurd rfl h
  · next hp =>
    rw [hp]
    exact ⟨rfl, rfl⟩
  · next c setting store file rest s' hp =>
    rw [hp]
    dsimp only
    unfold Upshot.ofRun at *
    dsimp only at h ⊢
    split at h
    · next done hdone =>
      rw [hdone]
      exact ⟨done, rfl, rfl, rfl⟩
    · exact absurd rfl h

theorem toDigits_exitCode (code : ExitCode) :
    (Nat.toDigits 10 (code.toNat : Int).natAbs).length ≤ Json.Limits.general.digits := by
  cases code <;> decide

/-- The report of an upshot, read by a program that takes whole numbers as long as those in it. -/
theorem Upshot.report_recounts {digits : Nat} (now : Calendar.Moment)
    (hd : Json.Limits.general.digits ≤ digits)
    (hsummary : ∀ n ∈ (upshot g settings o s).summary.numbers,
      (Nat.toDigits 10 n.natAbs).length ≤ digits) :
    ∃ told, Told.ofBytes digits (Report.bytesOf ((upshot g settings o s).report now)) = some told ∧
      Recounts told (upshot g settings o s).code (engineRun? g settings o s) := by
  have hsound := upshot_sound g settings o s
  have hran := upshot_engineRun? g settings o s
  generalize upshot g settings o s = u at *
  refine ⟨_, Report.ofBytes_document now hsound.results hsummary
    ((toDigits_exitCode u.code).trans hd) hd, rfl, ?_, ?_, ?_, ?_⟩
  · constructor
    · rintro ⟨e, he, _⟩
      obtain ⟨e', he', _⟩ := Option.map_eq_some_iff.mp he
      exact (hsound.error e' he').1
    · intro hfatal
      obtain ⟨e, he⟩ := hsound.fatal hfatal
      exact ⟨Json.pairedText e, by rw [he]; rfl, Json.pairedText_ne_empty (hsound.error e he).2⟩
  · intro hcode
    cases he : u.error with
    | none => rfl
    | some e => exact absurd (hsound.error e he).1 hcode
  · intro hcode r hr
    have hran := hran hcode
    rw [hr] at hran
    exact hran
  · intro hcode hnone
    have hran := hran hcode
    rw [hnone] at hran
    exact hran

/-- A run that left a report beside one that showed its results: the same was asked of the model and of
`git`, files that the log spares are the same but for the report, and if the log spares the report it is
there to be read. -/
structure Counterpart (u : Upshot σ) (ran : Option (Lint.Run σ)) (now : Calendar.Moment)
    (file : String) (after : Tree) (s s' : Session σ) (path : Path) (place : List String) : Prop where
  requests : s'.requests = s.requests
  git : s'.git = s.git
  adapter : s'.adapter = s.adapter
  source : s'.world.source = s.world.source
  files : ∀ names ≠ place, u.session.sink.Spares now u.session.world.tree names →
    u.session.sink.Spares now after names → s'.world.tree.fileAt names = s.world.tree.fileAt names
  resolved : (u.due now).resolve (.ofText file) = .ok path
  leads : LeadsTo place (after.locate path)
  report : u.session.sink.Spares now after place → ∃ bytes, s'.world.tree.read path = .ok bytes ∧
    ∀ digits, Json.Limits.general.digits ≤ digits →
      (∀ n ∈ u.summary.numbers, (Nat.toDigits 10 n.natAbs).length ≤ digits) →
      ∃ told, Told.ofBytes digits bytes = some told ∧ Recounts told u.code ran

theorem Upshot.counterpart {u : Upshot σ} {ran : Option (Lint.Run σ)} {now : Calendar.Moment}
    {file : String} {w : String × Log.Record} {after : Tree} (hshown : Shows now u.session s)
    (hreported : Shows now (u.session.onto after) s')
    (hwrite : Report.write (u.due now) file (u.report now) = (.ok w, after))
    (htold : ∀ digits, Json.Limits.general.digits ≤ digits →
      (∀ n ∈ u.summary.numbers, (Nat.toDigits 10 n.natAbs).length ≤ digits) →
      ∃ told, Told.ofBytes digits (Report.bytesOf (u.report now)) = some told ∧
        Recounts told u.code ran) :
    ∃ path place, Counterpart u ran now file after s s' path place := by
  obtain ⟨path, place, hleft⟩ := Report.write_eq_ok hwrite
  obtain ⟨records, hworld⟩ := hshown.world
  obtain ⟨records', hworld'⟩ := hreported.world
  refine ⟨path, place, hreported.requests.trans hshown.requests.symm,
    hreported.git.trans hshown.git.symm, hreported.adapter.trans hshown.adapter.symm, ?_, ?_,
    hleft.resolved, hleft.leads, ?_⟩
  · rw [hworld, hworld']
    rfl
  · intro names hne hspares hspares'
    calc s'.world.tree.fileAt names = after.fileAt names := (hreported.keeps hspares').same
      _ = (u.due now).fileAt names := hleft.others names hne
      _ = u.session.world.tree.fileAt names := (hspares _).same
      _ = s.world.tree.fileAt names := (hshown.keeps hspares).same.symm
  · intro hspares
    exact ⟨_, (hreported.keeps hspares).read hleft.leads hleft.read, htold⟩

section

variable {words : List String} {debug : Bool} {sink : Log.Sink} {t after : Tree}
  {w : String × Log.Record} {world : Lint.World σ}

theorem run_shown (hwords : Invocation.ofWords words = .ok ⟨debug, some (.lint o)⟩)
    (hsetup : setUp g debug world.tree = .ok (settings, sink, t)) (ho : o.reportOnly = false) :
    ∃ s, run g words world = .finished (upshot g settings o (begun world sink t)).code s ∧
      Shows g.now (upshot g settings o (begun world sink t)).session s := by
  obtain ⟨hcode, hshown⟩ := lintFiles_shown g settings (begun world sink t) ho debug
  have hrun := run_of_setUp (i := ⟨debug, some (.lint o)⟩) hwords rfl hsetup
  exact ⟨_, hrun.trans (congrArg (Ending.finished · _) hcode), hshown⟩

theorem run_reported (hwords : Invocation.ofWords words = .ok ⟨debug, some (.lint o)⟩)
    (hsetup : setUp g debug world.tree = .ok (settings, sink, t)) (ho : o.reportOnly = true)
    (hwrite : Report.write ((upshot g settings o (begun world sink t)).due g.now) o.reportFile
      ((upshot g settings o (begun world sink t)).report g.now) = (.ok w, after)) :
    ∃ s, run g words world = .finished (upshot g settings o (begun world sink t)).code s ∧
      Shows g.now ((upshot g settings o (begun world sink t)).session.onto after) s := by
  obtain ⟨hcode, hshows⟩ := lintFiles_reported ho debug hwrite
  have hrun := run_of_setUp (i := ⟨debug, some (.lint o)⟩) hwords rfl hsetup
  exact ⟨_, hrun.trans (congrArg (Ending.finished · _) hcode), hshows⟩

end

namespace Sample

open Cache.Sample Lint.Sample
open Lint (Config)
open Text (Bytes)

/-! A working directory with a configuration without rules, and with a report if there is one. -/

def configText : String := "provider: ollama\nmodel: m\nrules: []\n"

def config : Config := ⟨.ollama, some "http://localhost:11434/v1", "m", 1, "main", []⟩

def reportName : String := "report.json"

def folder (left : Option Bytes) : Tree :=
  ⟨"/work", (".ai-lint.yml", .file (Text.utf8Encode configText)) ::
    (left.map fun bytes => (reportName, Workspace.Entry.file bytes)).toList⟩

def configPath : Path := ⟨"", [".ai-lint.yml"]⟩

def reportPath : Path := ⟨"", [reportName]⟩
def reportPlace : Path := ⟨"/", ["work", reportName]⟩

theorem isFileOrFree_folder (left : Option Bytes) (name : String) :
    (folder left).IsFileOrFree [name] := by
  have hfiles : ∀ m ∈ (folder left).children, ∃ bytes, m.2 = .file bytes := by
    cases left with
    | none => simp [folder]
    | some bytes => simp [folder]
  cases h : (folder left).children.lookup name with
  | none => exact .inl h
  | some e =>
    obtain ⟨bytes, hbytes⟩ := hfiles _ (Json.mem_of_lookup h)
    exact .inr ⟨bytes, h.trans (congrArg some hbytes)⟩

theorem locate_folder {left : Option Bytes} {p : Path} {name : String}
    (hp : (folder none).segments? p = some [name]) (hshort : ¬Workspace.isTooLong p = true)
    (hup : name ≠ "..") (hname : ¬Workspace.longestName < name.utf8ByteSize) :
    (folder left).locate p = .ok ((folder left).endAt [name]) :=
  Workspace.locate_name hshort hp hup hname (isFileOrFree_folder left name)

section

variable {left : Option Bytes} {p : Path}

theorem locate_report (hp : p ∈ [reportPath, reportPlace]) :
    (folder left).locate p = .ok ((folder left).endAt [reportName]) := by
  have hsegments : ∀ p ∈ [reportPath, reportPlace], (folder none).segments? p = some [reportName] := by
    decide
  have hshort : ∀ p ∈ [reportPath, reportPlace], ¬Workspace.isTooLong p = true := by decide
  exact locate_folder (hsegments p hp) (hshort p hp) (by decide) (by decide)

theorem noNul_report (hp : p ∈ [reportPath, reportPlace]) :
    (p.parts.any fun part => part.toList.contains '\x00') = false := by
  have hall : ∀ p ∈ [reportPath, reportPlace],
      (p.parts.any fun part => part.toList.contains '\x00') = false := by decide
  exact hall p hp

theorem read_folder (bytes : Bytes) (hp : p ∈ [reportPath, reportPlace]) :
    (folder (some bytes)).read p = .ok bytes :=
  Workspace.read_of_found (noNul_report hp) (locate_report hp)

theorem write_folder (bytes : Bytes) (hp : p ∈ [reportPath, reportPlace]) :
    (folder left).write p bytes = .ok (folder (some bytes)) := by
  have hleads : LeadsTo [reportName] ((folder left).locate p) :=
    locate_report hp ▸ (isFileOrFree_folder left reportName).leadsTo
  rw [Workspace.write_of_leadsTo (noNul_report hp) hleads]
  cases left <;> rfl

theorem resolve_report : (folder left).resolve (Path.ofText reportName) = .ok reportPlace := by
  have hpath : Path.ofText reportName = reportPath := by decide
  have hsettle : ((folder left).settle (Workspace.linksIn (folder left).children) [] []
      [reportName]).2 = [reportName] := by
    cases left <;> simp [Tree.settle, reportName, folder, Workspace.childAt, List.lookup_cons]
  have hplace : (⟨(Path.ofText "/work").lead,
      Path.collapse true ((Path.ofText "/work").parts ++ [reportName])⟩ : Path) = reportPlace := by
    decide
  have hsegments : (folder left).segments? reportPath = some [reportName] := segments?_relative _ _
  have hroot : (folder left).root = "/work" := rfl
  simp only [hpath, Tree.resolve, Workspace.withPath, noNul_report (p := reportPath) (by simp),
    Bool.false_eq_true, if_false, hsegments, hsettle, hroot, hplace,
    locate_report (p := reportPlace) (by simp)]

theorem makeDirs_folder (hp : p ∈ [⟨"", []⟩, ⟨"/", ["work"]⟩]) :
    (folder left).makeDirs p = (.ok (), folder left) := by
  have hsegments : ∀ p ∈ [⟨"", []⟩, ⟨"/", ["work"]⟩], (folder none).segments? p = some [] := by
    decide
  have hshort : ∀ p : Path, p ∈ [⟨"", []⟩, ⟨"/", ["work"]⟩] → ¬Workspace.isTooLong p = true := by
    decide
  have hnul : ∀ p : Path, p ∈ [⟨"", []⟩, ⟨"/", ["work"]⟩] →
      (p.parts.any fun part => part.toList.contains '\x00') = false := by decide
  have hlink : (folder left).locateLink p = .ok (.found [] (.dir (folder left).children)) := by
    rw [Tree.locateLink, if_neg (hshort p hp),
      show (folder left).segments? p = some [] from hsegments p hp]
    simp only [Tree.follow]
    rfl
  exact Workspace.makeDirs_of_dir (hnul p hp) hlink

end

def reportRecord : Log.Record :=
  Log.record .debug "reporting.json_report" "Wrote JSON report to /work/report.json"

theorem write_report (left : Option Bytes) (report : Json) :
    Report.write (folder left) reportName report =
      (.ok ("/work/report.json", reportRecord), folder (some (Report.bytesOf report))) := by
  have hparent : reportPlace.parent = ⟨"/", ["work"]⟩ := by decide
  have htext : reportPlace.text = "/work/report.json" := by decide
  unfold Report.write
  rw [resolve_report]
  dsimp only
  rw [hparent, makeDirs_folder (by simp)]
  dsimp only
  rw [write_folder _ (by simp)]
  dsimp only
  rw [htext]
  rfl

theorem load_config (left : Option Bytes) :
    Config.load .default (folder left) configPath = .ok config := by
  have hlocate : (folder left).locate configPath =
      .ok (.found [".ai-lint.yml"] (.file (Text.utf8Encode configText))) :=
    locate_folder (segments?_relative _ _) (by decide) (by decide) (by decide)
  rw [Config.load, Workspace.read_of_found (by decide) hlocate]
  simp only [Text.utf8Decode_utf8Encode]
  decide +kernel

def options : LintOptions where
  files := []
  all := false
  changed := false
  base := none
  config := ".ai-lint.yml"
  verbose := false
  reportOnly := false
  reportFile := reportName

def plainWords : List String := ["--debug"] ++ "lint" :: ["--report-file", reportName]
def flaggedWords : List String := ["--debug"] ++ "lint" :: reportFlag :: ["--report-file", reportName]

theorem ofWords_plain : Invocation.ofWords plainWords = .ok ⟨true, some (.lint options)⟩ := by
  decide +kernel

theorem ofWords_flagged : Invocation.ofWords flaggedWords =
    .ok ⟨true, some (.lint { options with reportOnly := true })⟩ := by
  have hfront : ∀ word ∈ ["--debug"], Text.startsWith word "-" = true := by decide
  obtain ⟨st, hplain, _⟩ | ⟨debug, o, hplain, hflagged⟩ :=
    ofWords_reportFlag hfront ["--report-file", reportName]
  · cases hplain.symm.trans ofWords_plain
  · cases hplain.symm.trans ofWords_plain
    exact hflagged

theorem eq_options {debug : Bool} {o : LintOptions}
    (h : Invocation.ofWords plainWords = .ok ⟨debug, some (.lint o)⟩) : debug = true ∧ o = options := by
  rw [ofWords_plain] at h
  cases h
  exact ⟨rfl, rfl⟩

def configRecord : Log.Record := Config.loadedRecord configPath config

section

variable (g : Surroundings Unit) (settings : Settings) {s : Session Unit} {left : Option Bytes}

theorem prepare_folder (hs : s.world.tree = folder left) :
    (prepare g settings options).exec s =
      (.ok (.nothing nothingChosen), s.note g.now [configRecord]) := by
  have hconfig : (Act.config g options.config).exec s =
      (.ok config, s.note g.now [configRecord]) := by
    have hpath : Path.ofText options.config = configPath := by decide
    rw [exec_config, hpath, hs, load_config]
    rfl
  rw [prepare, Act.exec_bind_of_ok hconfig]
  rfl

theorem upshot_folder (hs : s.world.tree = folder left) :
    upshot g settings options s = { code := .ok, session := s.note g.now [configRecord] } := by
  rw [upshot, prepare_folder g settings hs]

end

theorem setUp_debug {g : Surroundings Unit} {t t' : Tree} {settings : Settings} {sink : Log.Sink}
    (hload : Settings.load t g.environment [] = .ok settings)
    (hsink : Log.Sink.configure t "DEBUG" settings.logFormat settings.logFile settings.logRotation
      settings.logRetention = .ok (sink, t')) :
    setUp g true t = .ok (settings, sink, t') := by
  rw [setUp, hload]
  simp only [Except.mapError, bind, Except.bind, if_true, hsink]
  rfl

theorem thresholdOf_debug : Log.Sink.thresholdOf "DEBUG" = .ok 10 := by decide

theorem locate_variables_folder : (folder none).locate ⟨"", [".env"]⟩ = .ok (.free [".env"]) :=
  locate_folder (segments?_relative _ _) (by decide) (by decide) (by decide)

def quiet : Log.Sink := ⟨10, .text, none⟩

theorem setUp_quiet : ∃ settings,
    setUp (surroundings []) true (world (folder none)).tree = .ok (settings, quiet, folder none) := by
  have hfields : ((Settings.load (folder none) [] []).mapError fun _ => ()).map
      (fun s => (s.logFormat, s.logFile)) = .ok ("text", none) := by
    rw [loadSettings_of_free locate_variables_folder]
    decide
  obtain ⟨settings, hload, hfields⟩ := map_eq_ok.mp hfields
  obtain ⟨hformat, hfile⟩ := Prod.mk.inj hfields
  refine ⟨settings, setUp_debug (mapError_eq_ok.mp hload) ?_⟩
  rw [Log.Sink.configure, thresholdOf_debug, hformat, hfile]
  rfl

def logVariables : List (String × String) := [("LOG_FILE", reportName), ("LOG_ROTATION", "0B")]

def logFile : Log.LogFile := ⟨reportPath, 0, 5⟩

def logging : Log.Sink := ⟨10, .text, some logFile⟩

theorem setUp_logging : ∃ settings,
    setUp (surroundings logVariables) true (world (folder none)).tree =
      .ok (settings, logging, folder none) := by
  have hfields : ((Settings.load (folder none) logVariables []).mapError fun _ => ()).map
      (fun s => (s.logFormat, s.logFile, s.logRotation, s.logRetention)) =
      .ok ("text", some reportPath, "0B", 5) := by
    rw [loadSettings_of_free locate_variables_folder]
    decide
  obtain ⟨settings, hload, hfields⟩ := map_eq_ok.mp hfields
  simp only [Prod.mk.injEq] at hfields
  obtain ⟨hformat, hfile, hrotation, hretention⟩ := hfields
  have hopen : Log.LogFile.open (folder none) reportPath "0B" 5 = .ok (logFile, folder none) := by
    have hhome : (folder none).expandHome reportPath = .ok reportPath := rfl
    have hparent : reportPath.parent = ⟨"", []⟩ := rfl
    have hsize : Log.parseSize "0B" = .ok 0 := by decide
    rw [Log.LogFile.open, hhome, hsize]
    simp only [Except.mapError, bind, Except.bind, hparent,
      makeDirs_folder (p := ⟨"", []⟩) (by simp)]
    rfl
  refine ⟨settings, setUp_debug (mapError_eq_ok.mp hload) ?_⟩
  change Log.Sink.configure (folder none) _ _ _ _ _ = _
  rw [Log.Sink.configure, thresholdOf_debug, hformat, hfile, hrotation, hretention]
  simp only [bind, Except.bind, hopen, Except.mapError]
  rfl

theorem extend_folder (left : Option Bytes) (bytes : Bytes) :
    Log.LogFile.extend reportPath bytes (folder left) = folder (some (left.getD [] ++ bytes)) := by
  have hread : (((folder left).read reportPath).toOption).getD [] = left.getD [] := by
    cases left with
    | none =>
      simp only [Tree.read, Workspace.withPath, noNul_report (p := reportPath) (by simp),
        Bool.false_eq_true, if_false, Tree.entry, locate_report (p := reportPath) (by simp)]
      rfl
    | some bytes =>
      rw [read_folder bytes (by simp)]
      rfl
  rw [Log.LogFile.extend, hread, write_folder _ (by simp)]
  rfl

theorem append_folder (left : Option Bytes) (line : String) : logFile.append (folder left) line =
    folder (some (left.getD [] ++ Text.utf8Encode (line ++ "\n"))) := by
  have htest : ∀ q, (folder left).test q reportPath =
      .ok ((left.map fun bytes => q (.file bytes)).getD false) := by
    intro q
    simp only [Tree.test, Tree.entry, locate_report (p := reportPath) (by simp)]
    cases left <;> rfl
  rw [Log.LogFile.append, logFile, Tree.exists, Tree.isFile, htest, htest, extend_folder]
  simp only [Nat.lt_irrefl, decide_false, Bool.false_and, Bool.false_eq_true, if_false, extend_folder]
  cases left <;> simp [Workspace.Entry.isFile]

theorem write_logging (left : Option Bytes) {r : Log.Record} (hr : r.level = .debug) :
    (logging.write moment (folder left) [r]).2 =
      folder (some (left.getD [] ++ Text.utf8Encode (r.textLine moment ++ "\n"))) := by
  have hlines : ([r].filter fun r => logging.takes r.level).map
      (Log.Record.render logging.layout moment) = [r.textLine moment] := by
    have htakes : logging.takes r.level = true := by
      rw [hr]
      decide
    simp only [List.filter_cons, htakes, if_true, List.filter_nil]
    rfl
  rw [Log.Sink.write, hlines]
  exact append_folder left _

def report : Json := Report.document moment [] .empty ExitCode.ok.toNat none

theorem lintFiles_logged (settings : Settings) : ∃ s', (lintFiles (surroundings logVariables) settings
      { options with reportOnly := true }).exec (begun (world (folder none)) logging (folder none)) =
        (.ok .ok, s') ∧
    s'.world.tree = folder (some (Report.bytesOf report ++
      Text.utf8Encode (reportRecord.textLine moment ++ "\n"))) := by
  generalize hs : begun (world (folder none)) logging (folder none) = s
  have hstart : s.world.tree = folder none := by
    rw [← hs]
    rfl
  have hprepare := prepare_folder (surroundings logVariables) settings hstart
  have hnoted : (s.note moment [configRecord]).world.tree =
      folder (some (Text.utf8Encode (configRecord.textLine moment ++ "\n"))) := by
    subst hs
    change (logging.write moment (folder none) [configRecord]).2 = _
    rw [write_logging none rfl, Option.getD_none, List.nil_append]
  obtain ⟨s', hleft, htree⟩ : ∃ s', (Act.leaveReport (surroundings logVariables) reportName .ok
      none).exec (s.note moment [configRecord]) = (.ok ⟨⟩, s') ∧
      s'.world.tree = folder (some (Report.bytesOf report ++
        Text.utf8Encode (reportRecord.textLine moment ++ "\n"))) := by
    refine ⟨_, leaveReport_exec (surroundings logVariables)
      ((congrArg (Report.write · reportName report) hnoted).trans (write_report _ _)), ?_⟩
    subst hs
    change (logging.write moment (folder (some (Report.bytesOf report))) [reportRecord]).2 = _
    rw [write_logging _ rfl, Option.getD_some]
  have hact : (Task.act (surroundings logVariables) { options with reportOnly := true }
      (.nothing nothingChosen)).exec (s.note moment [configRecord]) = (.ok .ok, s') := by
    rw [Task.act, endWithoutFiles]
    exact Act.exec_bind_of_ok hleft _
  refine ⟨s', lintFiles_of_ok ?_, htree⟩
  rw [checkFiles_eq]
  exact (Act.exec_bind_of_ok hprepare _).trans hact

end Sample
end JudgedLint.Command
