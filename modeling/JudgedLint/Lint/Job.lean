import JudgedLint.Digest
import JudgedLint.Lint.Rule
import JudgedLint.Workspace.Path

/-! Jobs: one rule to be judged on one file, and the question that is put to the model. -/
namespace JudgedLint.Lint

structure Job where
  rule : Rule
  file : String
  content : String
  fileHash : String
  promptHash : String
  deriving DecidableEq, Repr, Inhabited

def Job.of (rule : Rule) (file content : String) : Job :=
  ⟨rule, file, content, Digest.ofText content, Digest.ofText rule.prompt⟩

def Job.label (j : Job) : String := s!"{j.rule.id}:{j.file}"

def systemPrompt : String :=
  "You are a code linter. Analyze the given file against the provided rule.\n" ++
  "Respond ONLY with a JSON object of the form \x7b\"pass\": boolean, \"message\": string, " ++
  "\"line\": number | null\x7d.\n" ++
  "- If the file complies, set pass=true and confirm briefly.\n" ++
  "- If it violates the rule, set pass=false, describe the violation in 1-3 sentences, " ++
  "and set line to the approximate line number of the first violation."

/-- The language of a file by its suffix, for the fence around its content. -/
def fenceInfo (file : String) : String :=
  let suffix := (Workspace.Path.ofText (Text.replaceChar '\\' '/' file)).suffix
  let info := String.ofList (suffix.toList.dropWhile (· == '.'))
  if info.isEmpty then "txt" else info

def Job.question (j : Job) : String :=
  s!"## Rule: {j.rule.name}\n{j.rule.prompt}\n\n## File: {j.file}\n" ++
    "```" ++ s!"{fenceInfo j.file}\n{j.content}\n" ++ "```"

end JudgedLint.Lint
