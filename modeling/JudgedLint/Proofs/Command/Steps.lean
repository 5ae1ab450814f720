import JudgedLint.Command.Run
import JudgedLint.Proofs.Except

/-! What the steps of a command give and what they leave behind, and the two halves of the command
that checks files: first it finds out what there is to do, which does not depend on how the outcome
is shown; then it does that and shows it. -/
namespace JudgedLint.Command

open Lint (Config ExitCode)

variable {σ α β : Type} {g : Surroundings σ} {settings : Settings} {o : LintOptions} {s s' : Session σ}

namespace Act

/-- What a step gives in a session, and the session behind it. -/
def exec (a : Act σ α) (s : Session σ) : Except Failure α × Session σ := a.run.run s

theorem exec_bind (a : Act σ α) (f : α → Act σ β) (s : Session σ) :
    (a >>= f).exec s =
      match a.exec s with
      | (.ok x, s') => (f x).exec s'
      | (.error e, s') => (.error e, s') := by
  change (ExceptT.bindCont f (a.exec s).1).run (a.exec s).2 = _
  cases a.exec s with
  | mk r s' => cases r <;> rfl

theorem exec_bind_of_ok {a : Act σ α} {x : α} (h : a.exec s = (.ok x, s')) (f : α → Act σ β) :
    (a >>= f).exec s = (f x).exec s' := by
  rw [exec_bind, h]

theorem exec_bind_of_error {a : Act σ α} {e : Failure} (h : a.exec s = (.error e, s'))
    (f : α → Act σ β) : (a >>= f).exec s = (.error e, s') := by
  rw [exec_bind, h]

theorem exec_bind_eq_ok {a : Act σ α} {f : α → Act σ β} {y : β} :
    (a >>= f).exec s = (.ok y, s') ↔
      ∃ x s'', a.exec s = (.ok x, s'') ∧ (f x).exec s'' = (.ok y, s') := by
  rw [exec_bind]
  cases a.exec s with
  | mk r s'' => cases r <;> simp [and_assoc]

@[simp] theorem exec_pure (x : α) (s : Session σ) : (pure x : Act σ α).exec s = (.ok x, s) := rfl

@[simp] theorem exec_ofExcept (r : Except Failure α) (s : Session σ) :
    (ofExcept r : Act σ α).exec s = (r, s) := rfl

@[simp] theorem exec_modify (f : Session σ → Session σ) (s : Session σ) :
    (modify f : Act σ PUnit).exec s = (.ok ⟨⟩, f s) := rfl

@[simp] theorem exec_get (s : Session σ) : (get : Act σ (Session σ)).exec s = (.ok s, s) := rfl

@[simp] theorem exec_note (g : Surroundings σ) (records : List Log.Record) (s : Session σ) :
    (note g records).exec s = (.ok ⟨⟩, s.note g.now records) := rfl

@[simp] theorem exec_print (line : String) (s : Session σ) :
    (print line : Act σ Unit).exec s = (.ok ⟨⟩, s.write (line ++ "\n")) := rfl

@[simp] theorem exec_tree (s : Session σ) : (tree : Act σ _).exec s = (.ok s.world.tree, s) := rfl

@[simp] theorem exec_setTree (t : Workspace.Tree) (s : Session σ) :
    (setTree t : Act σ Unit).exec s = (.ok ⟨⟩, { s with world := { s.world with tree := t } }) := rfl

@[simp] theorem exec_map (f : α → β) (a : Act σ α) (s : Session σ) :
    (f <$> a).exec s = ((a.exec s).1.map f, (a.exec s).2) := by
  rw [map_eq_pure_bind, exec_bind]
  cases a.exec s with
  | mk r s' => cases r <;> rfl

theorem exec_tryCatch (a : Act σ α) (handle : Failure → Act σ α) (s : Session σ) :
    (tryCatch a handle).exec s =
      match a.exec s with
      | (.ok x, s') => (.ok x, s')
      | (.error e, s') => (handle e).exec s' := by
  change ExceptT.tryCatch a handle s = match a s with
    | (.ok x, s') => (.ok x, s')
    | (.error e, s') => handle e s'
  simp only [ExceptT.tryCatch, ExceptT.mk, bind, StateT.bind]
  cases a s with
  | mk r s' => cases r <;> rfl

/-- Whenever the step succeeds, what it gives has a property. -/
def Yields (P : α → Prop) (a : Act σ α) : Prop := ∀ s x s', a.exec s = (.ok x, s') → P x

theorem Yields.bind {P : β → Prop} {a : Act σ α} {f : α → Act σ β} (h : ∀ x, (f x).Yields P) :
    (a >>= f).Yields P := by
  intro s y s' hexec
  obtain ⟨x, s'', _, hx⟩ := exec_bind_eq_ok.mp hexec
  exact h x s'' y s' hx

theorem Yields.ofExcept {P : α → Prop} {r : Except Failure α} (h : ∀ x, r = .ok x → P x) :
    (Act.ofExcept r : Act σ α).Yields P := by
  intro s x s' hexec
  exact h x (congrArg Prod.fst hexec)

theorem Yields.pure {P : α → Prop} {x : α} (h : P x) : (Pure.pure x : Act σ α).Yields P := by
  intro s y s' hexec
  cases hexec
  exact h

/-- Whenever the step fails, its failure has a property. -/
def Fails (P : Failure → Prop) (a : Act σ α) : Prop := ∀ s f s', a.exec s = (.error f, s') → P f

theorem Fails.bind {P : Failure → Prop} {a : Act σ α} {f : α → Act σ β} (ha : a.Fails P)
    (hf : ∀ x, (f x).Fails P) : (a >>= f).Fails P := by
  intro s e s' hexec
  rw [exec_bind] at hexec
  generalize hstep : a.exec s = step at hexec
  obtain ⟨r, between⟩ := step
  cases r with
  | ok x => exact hf x between e s' hexec
  | error e' =>
    cases hexec
    exact ha s e s' hstep

theorem Fails.ofExcept {P : Failure → Prop} {r : Except Failure α} (h : ∀ f, r = .error f → P f) :
    (Act.ofExcept r : Act σ α).Fails P := by
  intro s f s' hexec
  exact h f (congrArg Prod.fst hexec)

theorem Fails.ofMapError {ε : Type} {P : Failure → Prop} {r : Except ε α} {wrap : ε → Failure}
    (h : ∀ e, P (wrap e)) : (Act.ofExcept (r.mapError wrap) : Act σ α).Fails P := by
  refine .ofExcept fun f hf => ?_
  obtain ⟨e, _, rfl⟩ := mapError_eq_error.mp hf
  exact h e

theorem Fails.of_ok {P : Failure → Prop} {a : Act σ α} (h : ∀ s, ∃ x s', a.exec s = (.ok x, s')) :
    a.Fails P := by
  intro s f s' hexec
  obtain ⟨x, s'', hok⟩ := h s
  rw [hok] at hexec
  cases hexec

theorem Fails.map {P : Failure → Prop} {a : Act σ α} (h : a.Fails P) (f : α → β) :
    (f <$> a).Fails P := by
  intro s e s' hexec
  rw [exec_map] at hexec
  exact h s e _ (Prod.ext (map_eq_error.mp (congrArg Prod.fst hexec)) rfl)

end Act

/-- What there is to do once configuration, files and adapter are known. -/
inductive Task (σ : Type) where
  | nothing (message : String)
  | check (c : Config) (setting : Lint.Setting σ) (store : Cache.Store) (file : String)
      (rest : List String)

def prepare (g : Surroundings σ) (settings : Settings) (o : LintOptions) : Act σ (Task σ) := do
  let c ← Act.config g o.config
  Act.needCredential settings c
  match ← chosenFiles g o c with
  | none => return .nothing nothingChosen
  | some [] => return .nothing nothingFound
  | some (file :: rest) =>
    let a ← Act.adapter g settings c
    let store ← Act.store settings
    return .check c (runSetting g a c) store file rest

def Task.act (g : Surroundings σ) (o : LintOptions) : Task σ → Act σ ExitCode
  | .nothing message => endWithoutFiles g o message
  | .check c setting store file rest =>
    if o.reportOnly then runReported g o setting store (file :: rest)
    else runShown g o c setting store (file :: rest)

theorem checkFiles_eq (g : Surroundings σ) (settings : Settings) (o : LintOptions) :
    checkFiles g settings o = prepare g settings o >>= Task.act g o := by
  simp only [checkFiles, prepare, bind_assoc]
  congr 1
  funext c
  congr 1
  funext _
  congr 1
  funext files
  cases files with
  | none => rfl
  | some files =>
    cases files with
    | nil => rfl
    | cons file rest => simp only [bind_assoc, pure_bind]; rfl

/-- How the outcome is shown does not matter for what there is to do. -/
theorem prepare_reportOnly (g : Surroundings σ) (settings : Settings) (o : LintOptions) (b : Bool) :
    prepare g settings { o with reportOnly := b } = prepare g settings o := rfl

/-- The exit code of a run, and what its report says. -/
def concluded (now : Calendar.Moment) (r : Lint.Run σ) : ExitCode × Json :=
  match r.outcome with
  | .ok c => (c.code, Report.document now c.results c.summary c.code.toNat none)
  | .error f =>
    (.fatal, Report.document now [] .empty ExitCode.fatal.toNat (some f.messageOrKind))

def OnlyNotes (h : Lint.History) : Prop := ∀ e ∈ h, ∃ record, e = Lint.Event.noted record

theorem close_eq (now : Calendar.Moment) (file : String) (context : Log.Context)
    (results : List Lint.Result) (summary : Lint.Summary) (code : ExitCode) (error : Option String)
    (history : Lint.History) (world : Lint.World σ) : ∃ notes printed, OnlyNotes notes ∧
      let written := Report.write world.tree file
        (Report.document now results summary code.toNat error)
      Report.Unattended.close now file context results summary code error history world =
        ⟨(written.1.mapError Failure.file).map fun _ => code, printed, history ++ notes,
          { world with tree := written.2 }⟩ := by
  unfold Report.Unattended.close
  cases Report.write world.tree file (Report.document now results summary code.toNat error) with
  | mk written tree =>
    cases written with
    | error e => exact ⟨[], [], by simp [OnlyNotes], by simp; rfl⟩
    | ok w =>
      refine ⟨[.noted (w.2.within context)], [Report.writtenText w.1], ?_, rfl⟩
      intro e he
      exact ⟨_, List.mem_singleton.mp he⟩

/-- A run of which only the report is seen ends as its report says, if it can be written. -/
theorem unattended_eq (now : Calendar.Moment) (reportFile : String) (setting : Lint.Setting σ)
    (store : Cache.Store) (file : String) (rest : List String) (world : Lint.World σ) :
    ∃ notes printed, OnlyNotes notes ∧
      let r := Lint.Run.run setting store (file :: rest) world
      let written := Report.write r.world.tree reportFile (concluded now r).2
      Report.Unattended.run now reportFile setting store (file :: rest) world =
        ⟨(written.1.mapError Failure.file).map fun _ => (concluded now r).1, printed,
          r.history ++ notes, { r.world with tree := written.2 }⟩ := by
  unfold Report.Unattended.run concluded
  simp only [List.isEmpty_cons, Bool.false_eq_true, if_false]
  cases (Lint.Run.run setting store (file :: rest) world).outcome with
  | ok c => exact close_eq _ _ _ _ _ _ _ _ _
  | error f =>
    dsimp only
    generalize Log.Record.within _ _ = note
    obtain ⟨notes, printed, hnotes, heq⟩ := close_eq now reportFile { run := some setting.runId } []
      .empty .fatal (some f.messageOrKind)
      ((Lint.Run.run setting store (file :: rest) world).history ++ [.noted note])
      (Lint.Run.run setting store (file :: rest) world).world
    refine ⟨.noted note :: notes, printed, ?_, ?_⟩
    · intro e he
      cases he with
      | head => exact ⟨note, rfl⟩
      | tail _ he => exact hnotes e he
    · rw [heq, List.append_assoc]
      rfl

section

variable {setting : Lint.Setting σ} {store : Cache.Store} {file : String} {rest : List String}

theorem runShown_exec (c : Config) : (runShown g o c setting store (file :: rest)).exec s =
    let r := Lint.Run.run setting store (file :: rest) s.world
    (r.outcome.map (·.code),
      { s.write (openingText (file :: rest) c ++ "\n") with world := r.world }.showHistory
        (.live o.verbose) g.now r.total 1 r.history) := rfl

theorem runReported_exec_eq (g : Surroundings σ) (o : LintOptions) (setting : Lint.Setting σ)
    (store : Cache.Store) (files : List String) (s : Session σ) :
    (runReported g o setting store files).exec s =
      let r := Report.Unattended.run g.now o.reportFile setting store files s.world
      (r.outcome, Session.write (String.join (r.printed.map (· ++ "\n"))) <|
        { s with world := r.world }.showHistory .silent g.now 0 1 r.history) := by
  have hprint (lines : List String) (s : Session σ) :
      (forIn lines ⟨⟩ fun line _ => do
        Act.print line
        return ForInStep.yield ⟨⟩ : Act σ PUnit).exec s =
        (.ok ⟨⟩, s.write (String.join (lines.map (· ++ "\n")))) := by
    induction lines generalizing s with
    | nil => simp [Session.write]
    | cons line rest ih =>
      have hline : (do
          Act.print line
          return ForInStep.yield ⟨⟩ : Act σ (ForInStep PUnit)).exec s =
            (.ok (.yield ⟨⟩), s.write (line ++ "\n")) := rfl
      rw [List.forIn_cons, Act.exec_bind_of_ok hline]
      change (forIn rest _ _ : Act σ PUnit).exec _ = _
      rw [ih]
      simp [Session.write, String.append_assoc]
  simp only [runReported, Act.exec_bind, Act.exec_get, Act.exec_modify]
  rw [hprint]
  rfl

theorem runReported_exec (g : Surroundings σ) (o : LintOptions) (setting : Lint.Setting σ)
    (store : Cache.Store) (file : String) (rest : List String) (s : Session σ) :
    ∃ notes printed, OnlyNotes notes ∧
      (runReported g o setting store (file :: rest)).exec s =
        let r := Lint.Run.run setting store (file :: rest) s.world
        let written := Report.write r.world.tree o.reportFile (concluded g.now r).2
        ((written.1.mapError Failure.file).map fun _ => (concluded g.now r).1,
          Session.write printed <|
            { s with world := { r.world with tree := written.2 } }.showHistory .silent g.now 0 1
              (r.history ++ notes)) := by
  obtain ⟨notes, printed, hnotes, heq⟩ := unattended_eq g.now o.reportFile setting store file rest
    s.world
  refine ⟨notes, String.join (printed.map (· ++ "\n")), hnotes, ?_⟩
  rw [runReported_exec_eq]
  simp only [heq]

end

def begun (world : Lint.World σ) (sink : Log.Sink) (t : Workspace.Tree) : Session σ :=
  { world := { world with tree := t }, sink }

theorem run_of_setUp {words : List String} {i : Invocation} {command : Command} {sink : Log.Sink}
    {t : Workspace.Tree} {world : Lint.World σ} (hwords : Invocation.ofWords words = .ok i)
    (hcommand : i.command = some command)
    (hsetup : setUp g i.debug world.tree = .ok (settings, sink, t)) :
    run g words world =
      let done := (perform g settings command).exec (begun world sink t)
      let ended := settle g i.debug done.1 done.2
      .finished ended.1 ended.2 := by
  simp only [run, hwords, hsetup, hcommand]
  rfl

end JudgedLint.Command
