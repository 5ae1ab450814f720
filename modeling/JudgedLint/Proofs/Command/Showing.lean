import JudgedLint.Proofs.Command.Exits
import JudgedLint.Proofs.Log.Sparing

/-! What is shown of a command: texts on the two streams, and records in the log. Nothing else comes of
it, whether a run is shown while it goes on or a report is left behind. -/
namespace JudgedLint.Command

open Lint (ExitCode)

variable {σ : Type} {g : Surroundings σ} {now : Calendar.Moment} {s s' s'' : Session σ}

namespace Session

/-- From one session to the other, something has been shown and that is all. -/
structure Shows (now : Calendar.Moment) (s s' : Session σ) : Prop where
  sink : s'.sink = s.sink
  git : s'.git = s.git
  adapter : s'.adapter = s.adapter
  requests : s'.requests = s.requests
  world : ∃ records,
    s'.world = { s.world with tree := (s.sink.write now s.world.tree records).2 }

def onto (s : Session σ) (t : Workspace.Tree) : Session σ := { s with world := { s.world with tree := t } }

namespace Shows

theorem refl (now : Calendar.Moment) (s : Session σ) : Shows now s s := by
  refine ⟨rfl, rfl, rfl, rfl, [], ?_⟩
  rw [Log.Sink.write_nil]

theorem trans (h : Shows now s s') (h' : Shows now s' s'') : Shows now s s'' := by
  obtain ⟨records, hworld⟩ := h.world
  obtain ⟨records', hworld'⟩ := h'.world
  refine ⟨h'.sink.trans h.sink, h'.git.trans h.git, h'.adapter.trans h.adapter,
    h'.requests.trans h.requests, records ++ records', ?_⟩
  rw [hworld', h.sink, hworld, Log.Sink.write_append]

theorem note (records : List Log.Record) (h : Shows now s s') : Shows now s (s'.note now records) :=
  h.trans ⟨rfl, rfl, rfl, rfl, records, rfl⟩

theorem write (text : String) (h : Shows now s s') : Shows now s (s'.write text) :=
  ⟨h.sink, h.git, h.adapter, h.requests, h.world⟩

theorem warn (text : String) (h : Shows now s s') : Shows now s (s'.warn text) :=
  ⟨h.sink, h.git, h.adapter, h.requests, h.world⟩

theorem ask (more : List Model.Request) (h : Shows now s s') :
    Shows now (s.ask more) (s'.ask more) :=
  ⟨h.sink, h.git, h.adapter, congrArg (· ++ more) h.requests, h.world⟩

theorem keeps (h : Shows now s s') {place : List String}
    (hspares : s.sink.Spares now s.world.tree place) :
    s.world.tree.Keeps s'.world.tree place := by
  obtain ⟨records, hworld⟩ := h.world
  rw [hworld]
  exact hspares records

end Shows

theorem ask_ask (first second : List Model.Request) (s : Session σ) :
    (s.ask first).ask second = s.ask (first ++ second) := by
  simp only [Session.ask, List.append_assoc]

/-- Events are shown, and calls among them are kept in mind. -/
theorem showEvent_shows (d : Display) (total completed : Nat) (e : Lint.Event) (s : Session σ) :
    Shows now (s.ask (Lint.History.requests [e])) (s.showEvent d now total completed e) := by
  have hkept : s.ask [] = s := by simp only [Session.ask, List.append_nil]
  cases e with
  | called request => exact .refl now _
  | noted record =>
    change Shows now (s.ask []) (s.note now [record])
    rw [hkept]
    exact (Shows.refl now s).note _
  | answered j attempt reply =>
    change Shows now (s.ask []) s
    rw [hkept]
    exact .refl now s
  | reported results summary =>
    change Shows now (s.ask []) (s.write _)
    rw [hkept]
    exact (Shows.refl now s).write _
  | served j result =>
    change Shows now (s.ask []) (s.warn _)
    rw [hkept]
    exact (Shows.refl now s).warn _
  | finished j result =>
    change Shows now (s.ask []) (s.warn _)
    rw [hkept]
    exact (Shows.refl now s).warn _

theorem requests_cons (e : Lint.Event) (h : Lint.History) :
    Lint.History.requests (e :: h) = Lint.History.requests [e] ++ h.requests := by
  rw [← List.singleton_append, Lint.History.requests, List.filterMap_append]
  rfl

theorem showHistory_shows (now : Calendar.Moment) (d : Display) (total completed : Nat) (h : Lint.History) (s : Session σ) :
    Shows now (s.ask h.requests) (s.showHistory d now total completed h) := by
  induction h generalizing completed s with
  | nil =>
    change Shows now (s.ask []) s
    simp only [Session.ask, List.append_nil]
    exact .refl now s
  | cons e rest ih =>
    rw [showHistory, requests_cons, ← ask_ask]
    exact ((showEvent_shows d total completed e s).ask _).trans (ih _ _)

end Session

open Session (Shows)

theorem requests_append_notes (h : Lint.History) {notes : Lint.History} (hnotes : OnlyNotes notes) :
    Lint.History.requests (h ++ notes) = h.requests := by
  have hnone : Lint.History.requests notes = [] := by
    refine List.filterMap_eq_nil_iff.mpr fun e he => ?_
    obtain ⟨record, rfl⟩ := hnotes e he
    rfl
  rw [Lint.History.requests, List.filterMap_append]
  exact (congrArg _ hnone).trans (List.append_nil _)

theorem settle_shows (debug : Bool) (outcome : Except Failure ExitCode) (s : Session σ) :
    Shows g.now s (settle g debug outcome s).2 := by
  unfold settle
  split
  · exact .refl _ _
  · exact (Shows.refl g.now _).note _
  · dsimp only
    split
    · exact (Shows.refl g.now _).warn _
    · exact ((Shows.refl g.now _).note _).warn _

theorem leaveReport_exec (g : Surroundings σ) {file : String} {code : ExitCode}
    {error : Option String} {w : String × Log.Record} {after : Workspace.Tree}
    (h : Report.write s.world.tree file (Report.document g.now [] .empty code.toNat error) =
      (.ok w, after)) :
    (Act.leaveReport g file code error).exec s =
      (.ok ⟨⟩, ((s.onto after).note g.now [w.2]).write (Report.writtenText w.1 ++ "\n")) := by
  simp only [Act.leaveReport, Act.exec_bind, Act.exec_tree, Act.exec_setTree, Act.exec_ofExcept, h]
  rfl

theorem leaveReport_shows (g : Surroundings σ) {file : String} {code : ExitCode}
    {error : Option String} {w : String × Log.Record} {after : Workspace.Tree}
    (h : Report.write s.world.tree file (Report.document g.now [] .empty code.toNat error) =
      (.ok w, after)) :
    ∃ s', (Act.leaveReport g file code error).exec s = (.ok ⟨⟩, s') ∧
      Shows g.now (s.onto after) s' :=
  ⟨_, leaveReport_exec g h, ((Shows.refl g.now (s.onto after)).note _).write _⟩

end JudgedLint.Command
