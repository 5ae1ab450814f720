import JudgedLint.Proofs.Command.Showing
import JudgedLint.Proofs.Report.Reading

/-! What checking files comes to, however it is shown: an exit code, and what there is to report. A
command that prints its results and one that leaves a report come to the same; the one then shows it on
the streams, and the other in the report. -/
namespace JudgedLint.Command

open Lint (Config ExitCode)
open Session (Shows)
open Workspace (Tree)

variable {σ : Type} {g : Surroundings σ} {settings : Settings} {o : LintOptions} {s s' : Session σ}

/-- What a command that checks files comes to, before any of it is shown. -/
structure Upshot (σ : Type) where
  code : ExitCode
  error : Option String := none
  results : List Lint.Result := []
  summary : Lint.Summary := .empty
  /-- The session in which it is shown. -/
  session : Session σ
  /-- What is noted before a report is written. -/
  notes : List Log.Record := []

namespace Upshot

def ofFailure (f : Failure) (session : Session σ) (notes : List Log.Record) : Upshot σ :=
  { code := .fatal, error := some f.messageOrKind, session, notes }

def ofRun (r : Lint.Run σ) (s : Session σ) : Upshot σ :=
  let session := { s with world := r.world }.ask r.history.requests
  match r.outcome with
  | .ok c => { code := c.code, results := c.results, summary := c.summary, session }
  | .error f => ofFailure f session []

def report (u : Upshot σ) (now : Calendar.Moment) : Json :=
  Report.document now u.results u.summary u.code.toNat u.error

/-- The tree in which a report is written. -/
def due (u : Upshot σ) (now : Calendar.Moment) : Tree :=
  (u.session.sink.write now u.session.world.tree u.notes).2

end Upshot

def failedNote (f : Failure) : Log.Record :=
  { Log.record .debug "cli" "Report-only lint failed" with exception := some f.shown }

def upshot (g : Surroundings σ) (settings : Settings) (o : LintOptions) (s : Session σ) : Upshot σ :=
  match (prepare g settings o).exec s with
  | (.error f, s') => .ofFailure f s' [failedNote f]
  | (.ok (.nothing _), s') => { code := .ok, session := s' }
  | (.ok (.check _ setting store file rest), s') =>
    .ofRun (Lint.Run.run setting store (file :: rest) s'.world) s'

theorem upshot_reportOnly (b : Bool) :
    upshot g settings { o with reportOnly := b } s = upshot g settings o s := by
  rw [upshot, upshot, prepare_reportOnly]

/-! ### Before the outcome -/

theorem prepare_fails (g : Surroundings σ) (settings : Settings) (o : LintOptions) :
    (prepare g settings o).Fails Failure.IsTold := by
  have hconfig : (Act.config g o.config).Fails Failure.IsTold := by
    refine .bind (.of_ok fun s => ⟨_, s, rfl⟩) fun t => .bind (.ofMapError fun e => ?_) fun c =>
      .of_ok fun s => ⟨_, _, rfl⟩
    cases e <;> exact Failure.isTold (by simp [Failure.ofLoad]) (by simp [Failure.ofLoad])
  have hcredential (c : Config) : (Act.needCredential settings c : Act σ Unit).Fails Failure.IsTold := by
    unfold Act.needCredential
    split
    · refine .ofExcept fun f hf => ?_
      cases hf
      exact Failure.isTold (by simp) (by simp)
    · exact .of_ok fun s => ⟨_, s, rfl⟩
  have hadapter (c : Config) : (Act.adapter g settings c).Fails Failure.IsTold := by
    refine .bind (.of_ok fun s => ⟨_, _, rfl⟩) fun _ => .bind (.ofMapError fun e => ?_) fun a =>
      .of_ok fun s => ⟨_, _, rfl⟩
    exact Failure.isTold (by simp) (by simp)
  have hstore : (Act.store settings : Act σ Cache.Store).Fails Failure.IsTold := by
    refine .bind (.of_ok fun s => ⟨_, s, rfl⟩) fun t => .ofMapError fun e => ?_
    exact Failure.isTold (by simp) (by simp)
  refine .bind hconfig fun c => .bind (hcredential c) fun _ => .bind (chosenFiles_fails g o c) ?_
  rintro (_ | _ | ⟨file, rest⟩)
  · exact .of_ok fun s => ⟨_, s, rfl⟩
  · exact .of_ok fun s => ⟨_, s, rfl⟩
  · exact .bind (hadapter c) fun a => .bind hstore fun store => .of_ok fun s => ⟨_, s, rfl⟩

theorem prepare_check {c : Config} {setting : Lint.Setting σ} {store : Cache.Store} {file : String}
    {rest : List String}
    (h : (prepare g settings o).exec s = (.ok (.check c setting store file rest), s')) :
    Lint.WellNamed setting.rules ∧ 1 ≤ setting.slots := by
  obtain ⟨loaded, s₁, hconfig, h⟩ := Act.exec_bind_eq_ok.mp h
  rw [exec_config] at hconfig
  split at hconfig
  · next c' hload =>
    cases hconfig
    obtain ⟨_, s₂, _, h⟩ := Act.exec_bind_eq_ok.mp h
    obtain ⟨files, s₃, _, h⟩ := Act.exec_bind_eq_ok.mp h
    match files with
    | none => cases h
    | some [] => cases h
    | some (file :: rest) =>
      obtain ⟨a, s₄, _, h⟩ := Act.exec_bind_eq_ok.mp h
      obtain ⟨store, s₅, _, h⟩ := Act.exec_bind_eq_ok.mp h
      cases h
      exact Config.load_eq_ok hload
  · cases hconfig

/-- What there is to report: of a failure that something is said, of a run that completed its results,
which can be read back. -/
structure Upshot.Sound (u : Upshot σ) : Prop where
  code : u.code ≠ .interrupted
  error : ∀ e, u.error = some e → u.code = .fatal ∧ e ≠ ""
  fatal : u.code = .fatal → ∃ e, u.error = some e
  results : ∀ r ∈ u.results, r.Lasting

theorem Upshot.sound_ofFailure {f : Failure} (h : f.IsTold) (session : Session σ)
    (notes : List Log.Record) : (ofFailure f session notes).Sound where
  code := by simp [ofFailure]
  error := by
    rintro e he
    cases he
    exact ⟨rfl, h.nonempty⟩
  fatal := fun _ => ⟨_, rfl⟩
  results := by simp [ofFailure]

theorem Upshot.sound_ofRun {setting : Lint.Setting σ} {store : Cache.Store} {paths : List String}
    {world : Lint.World σ} (hslots : 1 ≤ setting.slots) (hw : Lint.WellNamed setting.rules)
    (s : Session σ) : (ofRun (Lint.Run.run setting store paths world) s).Sound := by
  unfold ofRun
  dsimp only
  split
  · next c hc =>
    have hcode := Lint.Run.code_of_completed hc
    have hends : c.code ≠ .interrupted ∧ c.code ≠ .fatal := by
      constructor
      · intro heq
        rw [heq] at hcode
        split at hcode <;> cases hcode
      · intro heq
        rw [heq] at hcode
        split at hcode <;> cases hcode
    constructor
    case code => exact hends.1
    case error =>
      intro e he
      cases he
    case fatal => exact fun hfatal => absurd hfatal hends.2
    case results => exact Lint.Run.run_lasting hslots hw hc
  · next f hf => exact sound_ofFailure (Lint.Run.run_isTold hslots hw hf) _ _

theorem upshot_sound (g : Surroundings σ) (settings : Settings) (o : LintOptions) (s : Session σ) :
    (upshot g settings o s).Sound := by
  unfold upshot
  split
  · next f s' hp => exact Upshot.sound_ofFailure (prepare_fails g settings o _ _ _ hp) _ _
  · exact ⟨by simp, by simp, by simp, by simp⟩
  · next hp =>
    obtain ⟨hw, hslots⟩ := prepare_check hp
    exact Upshot.sound_ofRun hslots hw _

/-! ### Shown on the streams -/

/-- A command that prints its results ends with the code of its upshot and shows it. -/
theorem lintFiles_shown (g : Surroundings σ) (settings : Settings) (s : Session σ)
    (ho : o.reportOnly = false) (debug : Bool) :
    let done := (lintFiles g settings o).exec s
    let ended := settle g debug done.1 done.2
    ended.1 = (upshot g settings o s).code ∧ Shows g.now (upshot g settings o s).session ended.2 := by
  intro done ended
  -- How the command ends after checking, by whether that failed or came to a code.
  have hfailed {f : Failure} {s' : Session σ} (hf : f.IsTold)
      (h : (checkFiles g settings o).exec s = (.error f, s')) :
      ended.1 = .fatal ∧ Shows g.now s' ended.2 := by
    have hdone : done = (.error f, s') := by
      rw [show done = (lintFiles g settings o).exec s from rfl, lintFiles, Act.exec_tryCatch, h]
      dsimp only
      rw [ho]
      rfl
    have hended : ended = settle g debug done.1 done.2 := rfl
    rw [hended, hdone]
    exact ⟨settle_error debug hf.uninterrupted s', settle_shows debug _ s'⟩
  have hgone {code : ExitCode} {s' : Session σ}
      (h : (checkFiles g settings o).exec s = (.ok code, s')) : ended = (code, s') := by
    have hended : ended = settle g debug done.1 done.2 := rfl
    rw [hended, show done = (.ok code, s') from lintFiles_of_ok h]
    rfl
  rw [checkFiles_eq] at hfailed hgone
  unfold upshot
  split
  · next f s' hp => exact hfailed (prepare_fails g settings o _ _ _ hp) (Act.exec_bind_of_error hp _)
  · next message s' hp =>
    have hend : (Task.act g o (.nothing message)).exec s' = (.ok .ok, s'.write (message ++ "\n")) := by
      rw [Task.act, endWithoutFiles, ho]
      rfl
    rw [hgone ((Act.exec_bind_of_ok hp _).trans hend)]
    exact ⟨rfl, (Shows.refl _ _).write _⟩
  · next c setting store file rest s' hp =>
    obtain ⟨hw, hslots⟩ := prepare_check hp
    have hact : (Task.act g o (.check c setting store file rest)).exec s' =
        (runShown g o c setting store (file :: rest)).exec s' := by
      rw [Task.act, ho]
      rfl
    have hrun := ((Act.exec_bind_of_ok hp (Task.act g o)).trans hact).trans (runShown_exec c)
    dsimp only at hrun
    generalize hr : Lint.Run.run setting store (file :: rest) s'.world = r at hrun
    have hshows : Shows g.now ({ s' with world := r.world }.ask r.history.requests)
        ({ s'.write (openingText (file :: rest) c ++ "\n") with world := r.world }.showHistory
          (.live o.verbose) g.now r.total 1 r.history) :=
      (((Shows.refl g.now { s' with world := r.world }).write _).ask _).trans
        (Session.showHistory_shows _ _ _ _ _ _)
    unfold Upshot.ofRun
    dsimp only
    split
    · next done' hok =>
      rw [hok] at hrun
      rw [hgone hrun]
      exact ⟨rfl, hshows⟩
    · next f hf =>
      rw [hf] at hrun
      rw [← hr] at hf
      obtain ⟨hcode, hshows'⟩ := hfailed (Lint.Run.run_isTold hslots hw hf) hrun
      exact ⟨hcode, hshows.trans hshows'⟩

/-! ### Left in a report -/

theorem report_ofRun (r : Lint.Run σ) (s : Session σ) :
    (Upshot.ofRun r s).report g.now = (concluded g.now r).2 ∧
      (Upshot.ofRun r s).code = (concluded g.now r).1 ∧
      (Upshot.ofRun r s).session = { s with world := r.world }.ask r.history.requests ∧
      (Upshot.ofRun r s).notes = [] := by
  unfold Upshot.ofRun concluded
  cases r.outcome with
  | ok c => exact ⟨rfl, rfl, rfl, rfl⟩
  | error f => exact ⟨rfl, rfl, rfl, rfl⟩

theorem lintFiles_of_failed (ho : o.reportOnly = true) {f : Failure} {w : String × Log.Record}
    {after : Tree} (hcheck : (checkFiles g settings o).exec s = (.error f, s'))
    (hwrite : Report.write (s'.note g.now [failedNote f]).world.tree o.reportFile
      (Report.document g.now [] .empty ExitCode.fatal.toNat (some f.messageOrKind)) = (.ok w, after)) :
    ∃ s'', (lintFiles g settings o).exec s = (.ok .fatal, s'') ∧ Shows g.now (s'.onto after) s'' := by
  obtain ⟨s'', hleft, hshows⟩ := leaveReport_shows g hwrite
  have hnoted : Shows g.now (s'.onto after) ((s'.note g.now [failedNote f]).onto after) :=
    (Shows.refl g.now (s'.onto after)).warn (s'.sink.write g.now s'.world.tree [failedNote f]).1
  refine ⟨s'', ?_, hnoted.trans hshows⟩
  rw [lintFiles, Act.exec_tryCatch, hcheck]
  simp only [ho, Bool.not_true, Bool.false_eq_true, if_false]
  refine (Act.exec_bind_of_ok (Act.exec_note g [failedNote f] s') _).trans ?_
  exact Act.exec_bind_of_ok hleft _

theorem runReported_shows {setting : Lint.Setting σ} {store : Cache.Store} {file : String}
    {rest : List String} {w : String × Log.Record} {after : Tree}
    (hwrite : Report.write (Lint.Run.run setting store (file :: rest) s.world).world.tree o.reportFile
      (concluded g.now (Lint.Run.run setting store (file :: rest) s.world)).2 = (.ok w, after)) :
    let r := Lint.Run.run setting store (file :: rest) s.world
    ∃ s', (runReported g o setting store (file :: rest)).exec s = (.ok (concluded g.now r).1, s') ∧
      Shows g.now (({ s with world := r.world }.ask r.history.requests).onto after) s' := by
  intro r
  obtain ⟨notes, printed, honly, hexec⟩ := runReported_exec g o setting store file rest s
  dsimp only at hexec
  rw [hwrite] at hexec
  refine ⟨_, hexec, ?_⟩
  have hshows := Session.showHistory_shows g.now .silent 0 1 (r.history ++ notes)
    { s with world := { r.world with tree := after } }
  rw [requests_append_notes _ honly] at hshows
  exact hshows.write printed

/-- A command that leaves a report ends with the same code and shows the same, and the report says it. -/
theorem lintFiles_reported (ho : o.reportOnly = true) (debug : Bool) {w : String × Log.Record}
    {after : Tree}
    (hwrite : Report.write ((upshot g settings o s).due g.now) o.reportFile
      ((upshot g settings o s).report g.now) = (.ok w, after)) :
    let done := (lintFiles g settings o).exec s
    let ended := settle g debug done.1 done.2
    ended.1 = (upshot g settings o s).code ∧
      Shows g.now ((upshot g settings o s).session.onto after) ended.2 := by
  intro done ended
  have hsettled {code : ExitCode} {s' : Session σ} (h : (lintFiles g settings o).exec s = (.ok code, s')) :
      ended = (code, s') := by
    have hended : ended = settle g debug done.1 done.2 := rfl
    rw [hended, show done = (.ok code, s') from h]
    rfl
  have hgone {code : ExitCode} {s' : Session σ}
      (h : (prepare g settings o >>= Task.act g o).exec s = (.ok code, s')) : ended = (code, s') := by
    rw [← checkFiles_eq] at h
    exact hsettled (lintFiles_of_ok h)
  generalize hu : upshot g settings o s = u at hwrite ⊢
  unfold upshot at hu
  split at hu
  · next f s' hp =>
    subst hu
    have hcheck : (checkFiles g settings o).exec s = (.error f, s') := by
      rw [checkFiles_eq]
      exact Act.exec_bind_of_error hp _
    obtain ⟨s'', hexec, hshows⟩ := lintFiles_of_failed ho hcheck hwrite
    rw [hsettled hexec]
    exact ⟨rfl, hshows⟩
  · next message s' hp =>
    subst hu
    rw [Upshot.due, Log.Sink.write_nil] at hwrite
    obtain ⟨s'', hleft, hshows⟩ := leaveReport_shows g hwrite
    have hend : (Task.act g o (.nothing message)).exec s' = (.ok .ok, s'') := by
      rw [Task.act, endWithoutFiles, ho]
      exact Act.exec_bind_of_ok hleft _
    rw [hgone ((Act.exec_bind_of_ok hp _).trans hend)]
    exact ⟨rfl, hshows⟩
  · next c setting store file rest s' hp =>
    subst hu
    obtain ⟨hreport, hcode, hsession, hnotes⟩ :=
      report_ofRun (g := g) (Lint.Run.run setting store (file :: rest) s'.world) s'
    rw [Upshot.due, hnotes, Log.Sink.write_nil, hreport, hsession] at hwrite
    obtain ⟨s'', hexec, hshows⟩ := runReported_shows (g := g) (o := o) hwrite
    have hact : (Task.act g o (.check c setting store file rest)).exec s' =
        (runReported g o setting store (file :: rest)).exec s' := by
      rw [Task.act, ho]
      rfl
    rw [hgone (((Act.exec_bind_of_ok hp (Task.act g o)).trans hact).trans hexec), hcode, hsession]
    exact ⟨rfl, hshows⟩

end JudgedLint.Command
