import JudgedLint.Workspace.Tree
import JudgedLint.Pattern.Glob
import JudgedLint.Text.Blank
import JudgedLint.Text.Line
import JudgedLint.Log.Record

/-! The files a run looks at: those named, those changed since a base branch, or all that match a
glob. They are named from the working directory with forward slashes. -/
namespace JudgedLint.Workspace

open Pattern (Regex normalizePath)

def ignoredDirs : List String := [".git", "node_modules"]

inductive GitReply where
  | missing
  | finished (output errors : String) (status : Int)

inductive SelectionError where
  | gitMissing
  | gitFailed (detail : String)
  | file (e : FileError)
  | pattern (e : Pattern.RegexError)

/-- The name of `p` as seen from `start`, both reduced to their absolute form. -/
def Tree.relative (t : Tree) (start p : Path) : String :=
  let absolute (q : Path) : List String :=
    if q.lead == "" && !(t.isAbsolute q) then
      Path.collapse true ((Path.ofText t.root).parts ++ q.parts)
    else Path.collapse true q.parts
  let parts := Path.relativeParts (absolute start) (absolute p)
  normalizePath (if parts.isEmpty then "." else Text.join "/" parts)

/-- The named files that exist, and the names of the others. -/
def Tree.selectNamed (t : Tree) (start : Path) :
    List String → Except FileError (List String × List String)
  | [] => .ok ([], [])
  | raw :: rest => do
    let p := t.join start (Path.ofText raw)
    let isThere ← t.isFile p
    let (kept, gone) ← t.selectNamed start rest
    return if isThere then (t.relative start p :: kept, gone) else (kept, raw :: gone)

/-- Warns of the first names that do not exist before an error ends the selection. -/
def Tree.missingNames (t : Tree) (start : Path) : List String → List String
  | [] => []
  | raw :: rest =>
    match t.isFile (t.join start (Path.ofText raw)) with
    | .ok true => t.missingNames start rest
    | .ok false => raw :: t.missingNames start rest
    | .error _ => []

def missingRecord (name : String) : Log.Record :=
  Log.record .warning "files.resolver" s!"File does not exist: {name}"

/-- The named files that exist, with a warning for each of the others. -/
def Tree.selectNoted (t : Tree) (start : Path) (names : List String) :
    Except FileError (List String) × List Log.Record :=
  ((t.selectNamed start names).map (·.1), (t.missingNames start names).map missingRecord)

def gitArguments (base : String) : List String :=
  ["git", "diff", "--name-only", s!"{base}...HEAD"]

/-- The branch in use: the one given unless it is empty. -/
def baseBranch (given : Option String) (default : String) : String :=
  match given with
  | some b => if b.isEmpty then default else b
  | none => default

def Tree.selectLines (t : Tree) (start : Path) : List String → Except FileError (List String)
  | [] => .ok []
  | raw :: rest => do
    let line := Text.trim raw
    if line.isEmpty then t.selectLines start rest
    else
      let p := t.join start (Path.ofText line)
      let isThere ← t.isFile p
      let kept ← t.selectLines start rest
      return if isThere then t.relative start p :: kept else kept

def Tree.selectChanged (t : Tree) (start : Path) (reply : GitReply) :
    Except SelectionError (List String) :=
  match reply with
  | .missing => .error .gitMissing
  | .finished output errors status =>
    if status != 0 then
      let detail := Text.trim errors
      .error (.gitFailed (if detail.isEmpty then s!"exit status {status}" else detail))
    else
      (t.selectLines start (Text.lines (Text.universalNewlines output))).mapError .file

def changedRecord (base : String) (files : List String) : Log.Record :=
  Log.record .debug "files.resolver"
    s!"git diff {base}...HEAD: {files.length} existing changed files"

def isHidden (name : String) : Bool := Text.startsWith name "."

def sortNames (names : List String) : List String := names.mergeSort (fun a b => a ≤ b)

/-- Whether an entry of a directory counts as a directory when links are followed. -/
def Tree.leadsToDir (t : Tree) (p : Path) : Bool :=
  match t.isDir p with
  | .ok b => b
  | .error _ => false

mutual
/-- The paths of the files below a directory: its own in order, then those of its directories in
order. Hidden names, ignored directories and directories behind links are passed over. -/
def Tree.walk (t : Tree) (here : Path) : Nat → List (String × Entry) → List Path
  | 0, _ => []
  | fuel + 1, children =>
    let isDir (c : String × Entry) : Bool :=
      match c.2 with
      | .dir _ => true
      | .link _ => t.leadsToDir (here.child c.1)
      | .file _ => false
    let files := sortNames ((children.filter (!isDir ·)).map (·.1))
    let dirs := sortNames ((children.filter isDir).map (·.1))
    let own := (files.filter (!isHidden ·)).map here.child
    own ++ t.walkDirs here fuel children
      (dirs.filter fun d => !ignoredDirs.contains d && !isHidden d)

def Tree.walkDirs (t : Tree) (here : Path) : Nat → List (String × Entry) → List String → List Path
  | 0, _, _ => []
  | _, _, [] => []
  | fuel + 1, children, name :: rest =>
    let inner :=
      match children.lookup name with
      | some (.dir inner) => t.walk (here.child name) fuel inner
      | _ => []
    inner ++ t.walkDirs here fuel children rest
end

mutual
/-- A bound on the steps of a walk. -/
def Entry.weight : Entry → Nat
  | .file _ => 1
  | .link _ => 1
  | .dir children => 2 + weights children

def weights : List (String × Entry) → Nat
  | [] => 0
  | (_, e) :: rest => e.weight + 1 + weights rest
end

def Tree.selectMatching (t : Tree) (start : Path) (globs : List String) :
    Except Pattern.RegexError (List String) := do
  if globs.isEmpty then return []
  let patterns ← globs.mapM Pattern.compileGlob
  match t.entry start with
  | .ok (.dir children) =>
    let found := (t.walk start (2 * weights children + 2) children).map (t.relative start)
    return found.filter fun path => patterns.any fun r => r.accepts path.toList
  | _ => return []

end JudgedLint.Workspace
