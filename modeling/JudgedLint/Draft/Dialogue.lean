import JudgedLint.Draft.Basic
import JudgedLint.Lint.ConfigFile
import JudgedLint.Lint.Result

/-! The dialogue in which a rule is described, shown, and added to the configuration on request. -/
namespace JudgedLint.Draft

open Lint (ExitCode Rule)
open Workspace (Path Tree)

inductive Talk where
  | ask (text : String)
  | say (text : String)
  deriving DecidableEq, Repr

/-- The question and answer side: what is left to answer, and what happens when nothing is. -/
structure Answers where
  lines : List String
  whenNone : Failure

def Answers.next (a : Answers) : Except Failure (String × Answers) :=
  match a.lines with
  | [] => .error a.whenNone
  | line :: rest => .ok (line, { a with lines := rest })

structure Dialogue (σ : Type) where
  outcome : Except Failure ExitCode
  talk : List Talk
  requests : List Model.Request
  notes : List Log.Record
  tree : Tree
  source : σ

namespace Dialogue

def describeQuestion : String := "Describe what the rule should check:\n> "
def addQuestion : String := "Add this rule to your config? (y/n) "

/-- What is said once a rule is to be added, and the tree with the rule in the file. -/
def add (t : Tree) (path : String) (rule : Rule) : Except Failure (Option Tree) × List Talk :=
  match t.exists (Path.ofText path) with
  | .error e => (.error (.file e), [])
  | .ok isThere =>
    let talk := if isThere then [] else [.say s!"Creating {path}..."]
    match Lint.ConfigFile.addRule t (Path.ofText path) rule Lint.ConfigFile.defaultContent with
    | .error f => (.error f, talk)
    | .ok t => (.ok (some t), talk ++ [.say s!"Rule '{rule.id}' added to {path}"])

def confirm (t : Tree) (path : String) (rule : Rule) (answers : Answers) :
    Except Failure (Option Tree) × List Talk :=
  let shown : List Talk :=
    [.say "Generated rule:\n", .say (Yaml.render (.list [rule.toDatum])), .ask addQuestion]
  match answers.next with
  | .error f => (.error f, shown)
  | .ok (answer, _) =>
    if Text.lowerAscii (Text.trim answer) != "y" then
      (.ok none, shown ++ [.say "Rule discarded."])
    else
      let (added, talk) := add t path rule
      (added, shown ++ talk)

/-- The whole dialogue. The file changes only if a rule was drafted, the answer is `y`, and adding
the rule succeeds. -/
def run {σ : Type} (m : Model.Source σ) (a : Author) (path : String) (answers : Answers) (t : Tree)
    (source : σ) : Dialogue σ :=
  let opening := [Talk.ask describeQuestion]
  let stop (f : Failure) (talk : List Talk) : Dialogue σ := ⟨.error f, talk, [], [], t, source⟩
  match answers.next with
  | .error f => stop f opening
  | .ok (line, answers) =>
    let description := Text.trim line
    if description.isEmpty then stop (.draft .noDescription) opening
    else
      let drafting := session m a description source
      let talk := opening ++ [.say "\nGenerating rule...\n"]
      match drafting.outcome with
      | .error f => ⟨.error f, talk, drafting.requests, drafting.notes, t, drafting.source⟩
      | .ok rule =>
        let (added, more) := confirm t path rule answers
        let finish (o : Except Failure ExitCode) (notes : List Log.Record) (t : Tree) :
            Dialogue σ :=
          ⟨o, talk ++ more, drafting.requests, drafting.notes ++ notes, t, drafting.source⟩
        match added with
        | .error f => finish (.error f) [] t
        | .ok none => finish (.ok .ok) [] t
        | .ok (some t) =>
          finish (.ok .ok) [Lint.ConfigFile.addedRecord (Path.ofText path) rule] t

end Dialogue
end JudgedLint.Draft
