import JudgedLint.Cache.Document
import JudgedLint.Failure
import JudgedLint.Lint.Job
import JudgedLint.Lint.Matching

/-! The plan of a run: the jobs that files and rules make, and which of them the cache answers. -/
namespace JudgedLint.Lint

open Workspace (Path Tree)

/-- Content of a file as text; what is no UTF-8 is replaced, and every line end is a line feed. -/
def fileText (t : Tree) (path : String) : Except Failure String := do
  let bytes ← (t.read (Path.ofText path)).mapError .file
  return Text.universalNewlines (Text.utf8DecodeLossy bytes)

/-- The jobs of the matched files, in order; a file without rules is not read. -/
def jobsOf (t : Tree) : List (String × List Rule) → Except Failure (List Job)
  | [] => .ok []
  | (file, rules) :: rest => do
    if rules.isEmpty then jobsOf t rest
    else
      let content ← fileText t file
      return rules.map (Job.of · file content) ++ (← jobsOf t rest)

/-- The files without rules that stand before the first file that cannot be read. -/
def unmatched (t : Tree) : List (String × List Rule) → List String
  | [] => []
  | (file, rules) :: rest =>
    if rules.isEmpty then file :: unmatched t rest
    else
      match fileText t file with
      | .ok _ => unmatched t rest
      | .error _ => []

def cachedResult (d : Cache.Document) (j : Job) : Option Result :=
  (d.lookup j.rule.id j.file j.fileHash j.promptHash).map fun r => { r with cached := true }

/-- The jobs that the cache answers, with the answers. -/
def hits (d : Cache.Document) (jobs : List Job) : List (Job × Result) :=
  jobs.filterMap fun j => (cachedResult d j).map (j, ·)

/-- The jobs that a model has to judge. -/
def misses (d : Cache.Document) (jobs : List Job) : List Job :=
  jobs.filter fun j => (cachedResult d j).isNone

end JudgedLint.Lint
