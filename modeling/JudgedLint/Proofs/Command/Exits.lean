import JudgedLint.Proofs.Command.Steps
import JudgedLint.Proofs.Lint.Handover
import JudgedLint.Proofs.Workspace.Files

/-! What the exit code of a command says. Once settings and log are set up every command comes to an
exit code; one stands for nothing but a run that found an error or could not ask its model, and
whatever a command needs and does not get makes two of it. -/
namespace JudgedLint

open Lint (Config ExitCode)

variable {σ : Type}

namespace Lint.Run

theorem code_of_completed {g : Setting σ} {store : Cache.Store} {paths : List String}
    {world : World σ} {c : Completed} (h : (run g store paths world).outcome = .ok c) :
    c.code.toNat =
      if c.results.any fun r => !r.passed && r.severity == .error || r.apiError then 1 else 0 := by
  unfold run at h
  split at h
  · cases h
  · next p hp =>
    unfold finish at h
    dsimp only at h
    split at h
    · cases h
    · split at h
      · cases h
      · cases h
        exact exitCode_toNat _ _ _

end Lint.Run

theorem Draft.Dialogue.code_eq {m : Model.Source σ} {a : Draft.Author} {path : String}
    {answers : Draft.Answers} {t : Workspace.Tree} {source : σ} {code : ExitCode}
    (h : (Draft.Dialogue.run m a path answers t source).outcome = .ok code) : code = .ok := by
  unfold run at h
  dsimp only at h
  split at h
  · cases h
  · split at h
    · cases h
    · split at h
      · cases h
      · split at h
        · cases h
        · cases h
          rfl
        · cases h
          rfl

namespace Command

variable {g : Surroundings σ} {settings : Settings} {s s' : Session σ}

theorem settle_ok (debug : Bool) (code : ExitCode) (s : Session σ) :
    (settle g debug (.ok code) s).1 = code := rfl

theorem settle_interrupted (debug : Bool) (s : Session σ) :
    (settle g debug (.error .interrupted) s).1 = .interrupted := rfl

theorem settle_error (debug : Bool) {f : Failure} (hf : f ≠ .interrupted) (s : Session σ) :
    (settle g debug (.error f) s).1 = .fatal := by
  unfold settle
  split
  · next h => cases h
  · next h =>
    cases h
    exact absurd rfl hf
  · rfl

/-- The run of the engine that checking files comes to, if it comes to one. -/
def engineRun? (g : Surroundings σ) (settings : Settings) (o : LintOptions) (s : Session σ) :
    Option (Lint.Run σ) :=
  match (prepare g settings o).exec s with
  | (.ok (.check _ setting store file rest), s') =>
    some (Lint.Run.run setting store (file :: rest) s'.world)
  | _ => none

theorem engineRun?_code {o : LintOptions} {r : Lint.Run σ} {c : Lint.Completed}
    (hr : engineRun? g settings o s = some r) (hc : r.outcome = .ok c) : c.code.toNat =
      if c.results.any fun r => !r.passed && r.severity == .error || r.apiError then 1 else 0 := by
  unfold engineRun? at hr
  split at hr
  · cases hr
    exact Lint.Run.code_of_completed hc
  · cases hr

theorem leaveReport_cases (g : Surroundings σ) (file : String) (code : ExitCode)
    (error : Option String) (s : Session σ) : ∃ s', (Act.leaveReport g file code error).exec s =
      (.ok ⟨⟩, s') ∨ ∃ e, (Act.leaveReport g file code error).exec s = (.error (.file e), s') := by
  simp only [Act.leaveReport, Act.exec_bind, Act.exec_tree, Act.exec_setTree, Act.exec_ofExcept]
  cases (Report.write s.world.tree file (Report.document g.now [] .empty code.toNat error)).1 with
  | error e => exact ⟨_, .inr ⟨e, rfl⟩⟩
  | ok r => exact ⟨_, .inl rfl⟩

theorem endWithoutFiles_cases (g : Surroundings σ) (o : LintOptions) (message : String)
    (s : Session σ) : ∃ s', (endWithoutFiles g o message).exec s = (.ok .ok, s') ∨
      ∃ e, (endWithoutFiles g o message).exec s = (.error (.file e), s') := by
  unfold endWithoutFiles
  cases o.reportOnly with
  | false => exact ⟨_, .inl rfl⟩
  | true =>
    obtain ⟨s', hleft | ⟨e, hleft⟩⟩ := leaveReport_cases g o.reportFile .ok none s
    · exact ⟨s', .inl (Act.exec_bind_of_ok hleft _)⟩
    · exact ⟨s', .inr ⟨e, Act.exec_bind_of_error hleft _⟩⟩

/-- The outcome of a command that a failure stopped: it is reported, or it is the failure, or the
report could not be written either. -/
def Stopped (f : Failure) (outcome : Except Failure ExitCode) : Prop :=
  outcome = .ok .fatal ∨ outcome = .error f ∨ ∃ e, outcome = .error (.file e)

theorem Stopped.settle {f : Failure} {outcome : Except Failure ExitCode} (h : Stopped f outcome)
    (hf : f ≠ .interrupted) (debug : Bool) (s : Session σ) :
    (settle g debug outcome s).1 = .fatal := by
  rcases h with rfl | rfl | ⟨e, rfl⟩
  · exact settle_ok debug _ s
  · exact settle_error debug hf s
  · exact settle_error debug (by simp) s

section

variable {o : LintOptions} {f : Failure} {code : ExitCode}

theorem lintFiles_of_ok (h : (checkFiles g settings o).exec s = (.ok code, s')) :
    (lintFiles g settings o).exec s = (.ok code, s') := by
  rw [lintFiles, Act.exec_tryCatch, h]

theorem lintFiles_of_error (h : (checkFiles g settings o).exec s = (.error f, s')) :
    Stopped f ((lintFiles g settings o).exec s).1 := by
  rw [lintFiles, Act.exec_tryCatch, h]
  dsimp only
  cases o.reportOnly with
  | false => exact .inr (.inl rfl)
  | true =>
    simp only [Bool.not_true, Bool.false_eq_true, if_false, Act.exec_bind, Act.exec_note]
    obtain ⟨s'', hleft | ⟨e, hleft⟩⟩ := leaveReport_cases g o.reportFile .fatal
      (some f.messageOrKind) (s'.note g.now [{ Log.record .debug "cli" "Report-only lint failed" with
        exception := some f.shown }])
    · rw [hleft]
      exact .inl rfl
    · rw [hleft]
      exact .inr (.inr ⟨e, rfl⟩)

theorem lintFiles_of_unprepared (h : (prepare g settings o).exec s = (.error f, s')) :
    Stopped f ((lintFiles g settings o).exec s).1 := by
  apply lintFiles_of_error
  rw [checkFiles_eq]
  exact Act.exec_bind_of_error h _

/-- A command that comes to run the engine ends as the run does, unless its report is refused. -/
theorem lintFiles_of_engineRun {r : Lint.Run σ} (h : engineRun? g settings o s = some r) :
    ((lintFiles g settings o).exec s).1 = r.outcome.map (·.code) ∨
      ((lintFiles g settings o).exec s).1 = .ok (concluded g.now r).1 ∨
      ∃ e, Stopped (.file e) ((lintFiles g settings o).exec s).1 := by
  unfold engineRun? at h
  split at h
  · next c setting store file rest s' hp =>
    cases h
    have hcheck : (checkFiles g settings o).exec s =
        ((Task.check c setting store file rest).act g o).exec s' := by
      rw [checkFiles_eq]
      exact Act.exec_bind_of_ok hp _
    generalize hr : Lint.Run.run setting store (file :: rest) s'.world = r
    cases hmode : o.reportOnly with
    | false =>
      left
      simp only [Task.act, hmode, Bool.false_eq_true, if_false, runShown_exec, hr] at hcheck
      cases ho : r.outcome with
      | ok c =>
        rw [ho] at hcheck
        rw [lintFiles_of_ok hcheck]
        rfl
      | error f =>
        rw [ho] at hcheck
        rw [lintFiles, Act.exec_tryCatch, hcheck]
        simp only [hmode]
        rfl
    | true =>
      right
      obtain ⟨notes, printed, _, hexec⟩ := runReported_exec g o setting store file rest s'
      simp only [Task.act, hmode, if_true, hexec, hr] at hcheck
      cases hw : (Report.write r.world.tree o.reportFile (concluded g.now r).2).1 with
      | ok w =>
        rw [hw] at hcheck
        exact .inl (congrArg Prod.fst (lintFiles_of_ok hcheck))
      | error e =>
        rw [hw] at hcheck
        exact .inr ⟨e, lintFiles_of_error hcheck⟩
  · cases h

theorem engineRun_of_lintFailure (h : ((lintFiles g settings o).exec s).1 = .ok .lintFailure) :
    ∃ r c, engineRun? g settings o s = some r ∧ r.outcome = .ok c ∧ c.code = .lintFailure := by
  have hstopped {f : Failure} (hf : Stopped f ((lintFiles g settings o).exec s).1) : False := by
    rw [h] at hf
    rcases hf with hf | hf | ⟨e, hf⟩ <;> cases hf
  cases hp : (prepare g settings o).exec s with
  | mk task s' =>
    cases task with
    | error f => exact (hstopped (lintFiles_of_unprepared hp)).elim
    | ok task =>
      cases task with
      | nothing message =>
        have hcheck : (checkFiles g settings o).exec s =
            (endWithoutFiles g o message).exec s' := by
          rw [checkFiles_eq]
          exact Act.exec_bind_of_ok hp _
        obtain ⟨s'', hend | ⟨e, hend⟩⟩ := endWithoutFiles_cases g o message s'
        · rw [lintFiles_of_ok (hcheck.trans hend)] at h
          cases h
        · exact (hstopped (lintFiles_of_error (hcheck.trans hend))).elim
      | check c setting store file rest =>
        generalize hr : Lint.Run.run setting store (file :: rest) s'.world = r
        have hrun : engineRun? g settings o s = some r := by
          unfold engineRun?
          rw [hp, ← hr]
        refine ⟨r, ?_⟩
        rcases lintFiles_of_engineRun hrun with hend | hend | ⟨e, hend⟩
        · obtain ⟨c, hc, hcode⟩ := map_eq_ok.mp (hend.symm.trans h)
          exact ⟨c, hrun, hc, hcode⟩
        · rw [h] at hend
          unfold concluded at hend
          split at hend
          · next c hc => exact ⟨c, hrun, hc, (Except.ok.inj hend).symm⟩
          · cases hend
        · exact (hstopped hend).elim

theorem exec_config (g : Surroundings σ) (file : String) (s : Session σ) :
    (Act.config g file).exec s =
      match Config.load .default s.world.tree (.ofText file) with
      | .ok c => (.ok c, s.note g.now [Config.loadedRecord (.ofText file) c])
      | .error e => (.error (.ofLoad e), s) := by
  simp only [Act.config, Act.exec_bind, Act.exec_tree, Act.exec_ofExcept]
  cases Config.load .default s.world.tree (.ofText file) <;> rfl

theorem exec_needCredential_of_missing {c : Config} {name : String}
    (h : Act.credential settings c.provider = some (name, "")) (s : Session σ) :
    (Act.needCredential settings c).exec s =
      (.error (.config (.missingCredential name c.provider.name)), s) := by
  simp only [Act.needCredential, h, Act.exec_ofExcept]

theorem exec_needCredential (settings : Settings) (c : Config) (s : Session σ) :
    (Act.needCredential settings c).exec s = (.ok ⟨⟩, s) ∨ ∃ name,
      (Act.needCredential settings c).exec s =
        (.error (.config (.missingCredential name c.provider.name)), s) := by
  unfold Act.needCredential
  split
  · next name _ => exact .inr ⟨name, rfl⟩
  · exact .inl rfl

theorem chosenFiles_fails (g : Surroundings σ) (o : LintOptions) (c : Config) :
    (chosenFiles g o c).Fails Failure.IsTold := by
  refine .bind (.of_ok fun s => ⟨_, s, rfl⟩) fun t => ?_
  dsimp only
  split
  · refine .map (.ofMapError fun e => ?_) _
    exact Failure.isTold (by simp) (by simp)
  · split
    · refine .bind (.of_ok fun s => ⟨_, _, rfl⟩) fun _ => .bind (.ofMapError fun e => ?_) fun files =>
        .of_ok fun s => ⟨_, _, rfl⟩
      cases e <;> exact Failure.isTold (by simp [Failure.ofSelection]) (by simp [Failure.ofSelection])
    · split
      · exact .of_ok fun s => ⟨_, s, rfl⟩
      · refine .bind (.of_ok fun s => ⟨_, _, rfl⟩) fun _ => .map (.ofMapError fun e => ?_) _
        exact Failure.isTold (by simp) (by simp)

end

theorem validateConfig_yields (g : Surroundings σ) (file : String) :
    (validateConfig g file).Yields (· = .ok) := by
  refine .bind fun c => .bind fun _ => .bind fun _ => ?_
  have hrest : (do
      Act.print s!"  Model: {c.model}"
      Act.print s!"  Concurrency: {c.concurrency}"
      Act.print s!"  Git base: {c.gitBase}"
      let ids := Text.join ", " c.ruleIds
      Act.print s!"  Rules: {c.rules.length} ({ids})"
      return .ok : Act σ ExitCode).Yields (· = .ok) :=
    .bind fun _ => .bind fun _ => .bind fun _ => .bind fun _ => .pure rfl
  dsimp only
  split
  · exact hrest
  · exact hrest
  · exact .bind fun _ => hrest

theorem draftRule_yields (g : Surroundings σ) (settings : Settings) (file : String) :
    (draftRule g settings file).Yields (· = .ok) := by
  refine .bind fun t => .bind fun isThere => ?_
  dsimp only
  split
  · exact .bind fun c => .bind fun _ => .bind fun _ => .bind fun model => .bind fun s => .bind fun _ =>
      .ofExcept fun code hcode => Draft.Dialogue.code_eq hcode
  · exact .bind fun c => .bind fun _ => .bind fun _ => .bind fun model => .bind fun s => .bind fun _ =>
      .ofExcept fun code hcode => Draft.Dialogue.code_eq hcode

/-- Only checking files says that something failed. -/
theorem perform_yields {command : Command} (hlint : ∀ o, command ≠ .lint o) :
    (perform g settings command).Yields (· = .ok) := by
  cases command with
  | lint o => exact absurd rfl (hlint o)
  | validate file => exact validateConfig_yields g file
  | generateRule file => exact draftRule_yields g settings file
  | clearCache =>
    exact .bind fun t => .bind fun store => .bind fun _ => .bind fun _ => .bind fun _ => .pure rfl
  | cacheStatus =>
    refine .bind fun t => .bind fun store => .bind fun loaded => .bind fun _ => ?_
    exact .bind fun t' => .bind fun status => .bind fun _ => .bind fun _ => .pure rfl

/-- The configuration that a command works by, if it works by one. -/
def configOf (t : Workspace.Tree) : Command → Option (Except Config.LoadError Config)
  | .lint o => some (Config.load .default t (.ofText o.config))
  | .validate file => some (Config.load .default t (.ofText file))
  | .generateRule file =>
    match t.exists (.ofText file) with
    | .ok true => some (Config.load .default t (.ofText file))
    | .ok false => some (.ok emptyConfig)
    | .error _ => none
  | .clearCache | .cacheStatus => none

def asksModel : Command → Bool
  | .lint _ | .generateRule _ => true
  | .validate _ | .clearCache | .cacheStatus => false

/-- What the exit code of a command that began in a session says. -/
structure Means (g : Surroundings σ) (settings : Settings) (command : Command) (s : Session σ)
    (code : ExitCode) : Prop where
  /-- One: a run completed with an error or with a model that could not be asked. -/
  lintFailure : code = .lintFailure → ∃ o r c, command = .lint o ∧
    engineRun? g settings o s = some r ∧ r.outcome = .ok c ∧
    ∃ result ∈ c.results, !result.passed && result.severity == .error || result.apiError
  /-- Two: the configuration cannot be used, -/
  config : ∀ e, configOf s.world.tree command = some (.error e) → code = .fatal
  /-- or the provider's credential is missing, -/
  credential : ∀ c name, configOf s.world.tree command = some (.ok c) → asksModel command = true →
    Act.credential settings c.provider = some (name, "") → code = .fatal
  /-- or the files cannot be found out, -/
  selection : ∀ o c f s', command = .lint o → configOf s.world.tree command = some (.ok c) →
    (chosenFiles g o c).exec (s.note g.now [Config.loadedRecord (.ofText o.config) c]) =
      (.error f, s') → code = .fatal
  /-- or the run of the engine fails, as it does when the provider rejects the credential, -/
  judging : ∀ o r f, command = .lint o → engineRun? g settings o s = some r → r.outcome = .error f →
    f ≠ .interrupted → code = .fatal
  /-- or the command fails in any other way but by being interrupted. -/
  failure : ∀ f s', (perform g settings command).exec s = (.error f, s') →
    code = if f = .interrupted then .interrupted else .fatal

theorem ofLoad_ne_interrupted (e : Config.LoadError) : Failure.ofLoad e ≠ .interrupted := by
  cases e <;> simp [Failure.ofLoad]

theorem settle_eq_lintFailure {debug : Bool} {outcome : Except Failure ExitCode}
    (h : (settle g debug outcome s).1 = .lintFailure) : outcome = .ok .lintFailure := by
  cases outcome with
  | ok code => exact congrArg _ h
  | error f =>
    by_cases hf : f = .interrupted
    · rw [hf, settle_interrupted] at h
      cases h
    · rw [settle_error debug hf] at h
      cases h

theorem exec_config_of_ok {file : String} {c : Config}
    (h : Config.load .default s.world.tree (.ofText file) = .ok c) :
    (Act.config g file).exec s = (.ok c, s.note g.now [Config.loadedRecord (.ofText file) c]) := by
  rw [exec_config, h]

theorem exec_config_of_error {file : String} {e : Config.LoadError}
    (h : Config.load .default s.world.tree (.ofText file) = .error e) :
    (Act.config g file).exec s = (.error (.ofLoad e), s) := by
  rw [exec_config, h]

theorem draftRule_unconfigured {file : String} {e : Config.LoadError}
    (h : configOf s.world.tree (.generateRule file) = some (.error e)) :
    (draftRule g settings file).exec s = (.error (.ofLoad e), s) := by
  delta configOf at h
  dsimp only at h
  split at h
  · next hthere =>
    rw [draftRule, Act.exec_bind_of_ok (Act.exec_tree s), Act.exec_bind, Act.exec_ofExcept, hthere]
    exact Act.exec_bind_of_error (exec_config_of_error (Option.some.inj h)) _
  · cases h
  · cases h

theorem draftRule_uncredited {file : String} {c : Config} {name : String}
    (h : configOf s.world.tree (.generateRule file) = some (.ok c))
    (hmissing : Act.credential settings c.provider = some (name, "")) : ∃ s',
      (draftRule g settings file).exec s =
        (.error (.config (.missingCredential name c.provider.name)), s') := by
  delta configOf at h
  dsimp only at h
  split at h
  · next hthere =>
    refine ⟨s.note g.now [Config.loadedRecord (.ofText file) c], ?_⟩
    rw [draftRule, Act.exec_bind_of_ok (Act.exec_tree s), Act.exec_bind, Act.exec_ofExcept, hthere]
    refine (Act.exec_bind_of_ok (exec_config_of_ok (Option.some.inj h)) _).trans ?_
    exact Act.exec_bind_of_error (exec_needCredential_of_missing hmissing _) _
  · next hthere =>
    cases h
    refine ⟨s, ?_⟩
    rw [draftRule, Act.exec_bind_of_ok (Act.exec_tree s), Act.exec_bind, Act.exec_ofExcept, hthere]
    exact Act.exec_bind_of_error (exec_needCredential_of_missing hmissing _) _
  · cases h

section

variable {o : LintOptions} {c : Config}

theorem prepare_unconfigured {e : Config.LoadError}
    (h : configOf s.world.tree (.lint o) = some (.error e)) :
    (prepare g settings o).exec s = (.error (.ofLoad e), s) :=
  Act.exec_bind_of_error (exec_config_of_error (Option.some.inj h)) _

theorem prepare_uncredited {name : String} (h : configOf s.world.tree (.lint o) = some (.ok c))
    (hmissing : Act.credential settings c.provider = some (name, "")) :
    (prepare g settings o).exec s = (.error (.config (.missingCredential name c.provider.name)),
      s.note g.now [Config.loadedRecord (.ofText o.config) c]) := by
  rw [prepare, Act.exec_bind_of_ok (exec_config_of_ok (Option.some.inj h))]
  exact Act.exec_bind_of_error (exec_needCredential_of_missing hmissing _) _

/-- Where the files cannot be found out, the credential may be what is missed first. -/
theorem prepare_unselected (settings : Settings) {f : Failure} (h : configOf s.world.tree (.lint o) = some (.ok c))
    (hfiles : (chosenFiles g o c).exec (s.note g.now [Config.loadedRecord (.ofText o.config) c]) =
      (.error f, s')) : ∃ f' s'', (prepare g settings o).exec s = (.error f', s'') ∧
        f' ≠ .interrupted := by
  rw [prepare, Act.exec_bind_of_ok (exec_config_of_ok (Option.some.inj h))]
  rcases exec_needCredential settings c (s.note g.now [Config.loadedRecord (.ofText o.config) c]) with
    hcredential | ⟨name, hcredential⟩
  · rw [Act.exec_bind_of_ok hcredential, Act.exec_bind_of_error hfiles]
    exact ⟨f, s', rfl, (chosenFiles_fails g o c _ _ _ hfiles).uninterrupted⟩
  · rw [Act.exec_bind_of_error hcredential]
    exact ⟨_, _, rfl, by simp⟩

end

theorem means_of_perform (g : Surroundings σ) (settings : Settings) (debug : Bool) (command : Command)
    (s : Session σ) : Means g settings command s
      (settle g debug ((perform g settings command).exec s).1
        ((perform g settings command).exec s).2).1 := by
  constructor
  case lintFailure =>
    intro hcode
    have hend := settle_eq_lintFailure hcode
    -- Only linting ends with this code: every other command yields `ok` or fails.
    by_cases hlint : ∃ o, command = .lint o
    · obtain ⟨o, rfl⟩ := hlint
      obtain ⟨r, c, hr, hc, hone⟩ := engineRun_of_lintFailure hend
      refine ⟨o, r, c, rfl, hr, hc, ?_⟩
      have hany := engineRun?_code hr hc
      rw [hone] at hany
      split at hany
      · next h => exact List.any_eq_true.mp h
      · cases hany
    · have hyields : (perform g settings command).Yields (· = .ok) :=
        perform_yields fun o ho => hlint ⟨o, ho⟩
      cases hyields s .lintFailure _ (Prod.ext hend rfl)
  case config =>
    intro e hconfig
    have hf := ofLoad_ne_interrupted e
    cases command with
    | lint o => exact (lintFiles_of_unprepared (prepare_unconfigured hconfig)).settle hf debug _
    | validate file =>
      have hexec : (perform g settings (.validate file)).exec s = (.error (.ofLoad e), s) :=
        Act.exec_bind_of_error (exec_config_of_error (Option.some.inj hconfig)) _
      rw [hexec]
      exact settle_error debug hf s
    | generateRule file =>
      rw [perform, draftRule_unconfigured hconfig]
      exact settle_error debug hf s
    | clearCache => cases hconfig
    | cacheStatus => cases hconfig
  case credential =>
    intro c name hconfig hasks hmissing
    cases command with
    | lint o =>
      exact (lintFiles_of_unprepared (prepare_uncredited hconfig hmissing)).settle (by simp) debug _
    | generateRule file =>
      obtain ⟨s', hexec⟩ := draftRule_uncredited (g := g) hconfig hmissing
      rw [perform, hexec]
      exact settle_error debug (by simp) s'
    | validate file => cases hasks
    | clearCache => cases hasks
    | cacheStatus => cases hasks
  case selection =>
    rintro o c f s' rfl hconfig hfiles
    obtain ⟨f', s'', hprepare, hf⟩ := prepare_unselected settings hconfig hfiles
    exact (lintFiles_of_unprepared hprepare).settle hf debug _
  case judging =>
    rintro o r f rfl hr hfailed hf
    have hstopped : ∃ f', Stopped f' ((lintFiles g settings o).exec s).1 ∧ f' ≠ .interrupted := by
      rcases lintFiles_of_engineRun hr with hend | hend | ⟨e, hend⟩
      · rw [hfailed] at hend
        exact ⟨f, .inr (.inl hend), hf⟩
      · rw [concluded, hfailed] at hend
        exact ⟨f, .inl hend, hf⟩
      · exact ⟨_, hend, by simp⟩
    obtain ⟨f', hend, hf'⟩ := hstopped
    exact hend.settle hf' debug _
  case failure =>
    intro f s' h
    rw [h]
    by_cases hf : f = .interrupted
    · rw [if_pos hf, hf]
      exact settle_interrupted debug s'
    · rw [if_neg hf]
      exact settle_error debug hf s'

/-- Once settings and log are set up, a command that the line names comes to an exit code, and the
code means what it should. -/
theorem run_exit_codes {words : List String} {i : Invocation} {command : Command}
    {sink : Log.Sink} {t : Workspace.Tree} {world : Lint.World σ}
    (hwords : Invocation.ofWords words = .ok i) (hcommand : i.command = some command)
    (hsetup : setUp g i.debug world.tree = .ok (settings, sink, t)) :
    ∃ code s, run g words world = .finished code s ∧
      Means g settings command (begun world sink t) code :=
  ⟨_, _, run_of_setUp hwords hcommand hsetup, means_of_perform g settings i.debug command _⟩

namespace Sample

open Lint.Sample Cache.Sample

def surroundings (environment : List (String × String)) : Surroundings Unit where
  environment
  git := .missing
  typed := []
  whenNoneTyped := .endOfInput
  model := (setting .error 1 0.5).model
  random := 0.5
  runId := "run"
  now := moment
  stamp := fun _ => moment

def words : List String := ["cache", "status"]

theorem ofWords_words : Invocation.ofWords words = .ok ⟨false, some .cacheStatus⟩ := by
  decide

theorem loadSettings_of_free {t : Workspace.Tree}
    (hfree : t.locate ⟨"", [".env"]⟩ = .ok (.free [".env"])) (environment : List (String × String)) :
    Settings.load t environment [] =
      (Settings.reader (.map (Settings.names.filterMap fun name =>
        (((Settings.lowered (environment.map fun v => (v.1, some v.2))).lookup name).join.map
          Datum.str).map fun d => (.str name, d)))).mapError .invalid := by
  have hpath : Settings.dotenvPath = ⟨"", [".env"]⟩ := by decide
  have hread : t.read ⟨"", [".env"]⟩ = Workspace.refused ⟨"", [".env"]⟩ .noEntry := by
    simp only [Workspace.Tree.read, Workspace.withPath, Workspace.Tree.entry, hfree]
    rfl
  have hvariables : Settings.fileVariables t environment = .ok [] := by
    delta Settings.fileVariables
    rw [hpath, hread]
    rfl
  rw [Settings.load, hvariables]
  refine congrArg (fun ds => (Settings.reader (.map ds)).mapError Settings.Error.invalid) ?_
  refine congrArg (fun f => Settings.names.filterMap f) (funext fun name => ?_)
  dsimp only [List.lookup_nil, Settings.lowered, List.map_nil, List.reverse_nil]
  cases (((environment.map fun v => (v.1, some v.2)).map fun v =>
    (Text.lowerAscii v.1, v.2)).reverse.lookup name).join <;> rfl

theorem locate_variables : bare.locate ⟨"", [".env"]⟩ = .ok (.free [".env"]) :=
  Workspace.locate_name (by decide) (segments?_relative _ _) (by decide) (by decide)
    (.inl rfl)

/-- In an empty environment settings and log are set up. -/
theorem run_exit_codes_status : ∃ settings sink t,
    setUp (surroundings []) false bare = .ok (settings, sink, t) ∧
    ∃ code s, run (surroundings []) words (world bare) = .finished code s ∧
      Means (surroundings []) settings .cacheStatus (begun (world bare) sink t) code := by
  have hready : (setUp (surroundings []) false bare).toOption.isSome = true := by
    rw [setUp, surroundings, loadSettings_of_free locate_variables]
    decide
  obtain ⟨x, hsetup⟩ : ∃ x, setUp (surroundings []) false bare = .ok x := by
    cases hsetup : setUp (surroundings []) false bare with
    | error f =>
      rw [hsetup] at hready
      cases hready
    | ok x => exact ⟨x, rfl⟩
  exact ⟨x.1, x.2.1, x.2.2, hsetup, run_exit_codes ofWords_words rfl hsetup⟩

def unknownLevel : Failure :=
  .invalid [⟨[.name "log_level"], .notOneOf ["DEBUG", "INFO", "WARNING", "ERROR"]⟩]

/-- A level that the environment names and that does not exist ends the program at once, although
the line is fine and names a command. -/
theorem unknown_level_escapes :
    Invocation.ofWords words = .ok ⟨false, some .cacheStatus⟩ ∧
    run (surroundings [("LOG_LEVEL", "loud")]) words (world bare) = .failed unknownLevel := by
  have hsetup : (setUp (surroundings [("LOG_LEVEL", "loud")]) false bare).map (fun _ => ()) =
      .error unknownLevel := by
    rw [setUp, surroundings, loadSettings_of_free locate_variables]
    decide
  refine ⟨ofWords_words, ?_⟩
  simp only [run, ofWords_words, world, map_eq_error.mp hsetup]

end Sample
end Command
end JudgedLint
