import JudgedLint.Command.Run
import JudgedLint.Json.Reader
import JudgedLint.Model.ScriptFile
import JudgedLint.Workspace.Snapshot

/-! The program for a shell that holds the files. A line of JSON on the input describes the working
directory, the variables, the lines typed, what `git` answers and what the model says; a line on the
output tells what the program wrote, and which files there are when it has run. -/
namespace JudgedLint.Main

def worldOf (j : Json) : Lint.World Model.Script :=
  ⟨(⟨"/work", []⟩ : Workspace.Tree).withEntries (j.get "files"), 0.0, .ofJson (j.get "script"), 0⟩

def gitOf (j : Json) : Workspace.GitReply :=
  match j.get? "git" with
  | none => .missing
  | some git =>
    .finished (((git.get "output").str?).getD "") (((git.get "errors").str?).getD "")
      (((git.get "status").int?).getD 0)

def surroundingsOf (j : Json) : Command.Surroundings Model.Script where
  environment := (j.get "variables").pairs.filterMap fun v => v.2.str?.map fun value => (v.1, value)
  git := gitOf j
  typed := (j.get "typed").texts
  whenNoneTyped := .endOfInput
  model := Model.Script.source
  random := (Model.numberOf? (j.get "random")).getD 0.5
  runId := ((j.get "run").str?).getD "000000000000"
  now := .ofUnix (((j.get "now").int?).getD 0) 0
  stamp := fun n => .ofUnix (((j.get "now").int?).getD 0 + n) 0

def told (code : Nat) (output errors : String) (t : Workspace.Tree) : Json :=
  .obj [("code", .nat code), ("output", .str output), ("errors", .str errors),
    ("files", t.snapshot)]

def answer (words : List String) (j : Json) : Nat × Json :=
  let world := worldOf j
  match Command.run (surroundingsOf j) words world with
  | .stopped s =>
    let (code, output, errors) := s.ending
    (code, told code output errors world.tree)
  | .failed f => (1, told 1 "" s!"{f.shown}\n" world.tree)
  | .finished code s => (code.toNat, told code.toNat s.output s.errors s.world.tree)

end JudgedLint.Main

def main (words : List String) : IO UInt32 := do
  let line ← (← IO.getStdin).getLine
  match JudgedLint.Json.parse .general line with
  | .error e =>
    IO.eprintln e.message
    return 2
  | .ok j =>
    let (code, report) := JudgedLint.Main.answer words j
    IO.println (JudgedLint.Json.render .line report)
    return code.toUInt32
