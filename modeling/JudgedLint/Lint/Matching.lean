import JudgedLint.Lint.Rule
import JudgedLint.Pattern.Glob

/-! Which rules apply to which files. -/
namespace JudgedLint.Lint

open Pattern (RegexError matchGlob normalizePath)

/-- A rule applies to a path that its glob matches and its exclusion, if any, does not. -/
def Rule.appliesTo (r : Rule) (path : String) : Except RegexError Bool := do
  if !(← matchGlob path r.glob) then return false
  match r.exclude with
  | none => return true
  | some e => if e.isEmpty then return true else return !(← matchGlob path e)

def rulesFor (rules : List Rule) (path : String) : Except RegexError (List Rule) :=
  rules.filterM fun r => r.appliesTo (normalizePath path)

/-- Each path once, in the order in which it first stands. -/
def firstSeen (paths : List String) : List String :=
  (paths.foldl (fun seen p => if seen.contains p then seen else p :: seen) []).reverse

/-- The paths, each once, with the rules that apply to them. -/
def matchFiles (rules : List Rule) (paths : List String) :
    Except RegexError (List (String × List Rule)) :=
  (firstSeen paths).mapM fun p => return (p, ← rulesFor rules p)

def allGlobs (rules : List Rule) : List String := firstSeen (rules.map (·.glob))

end JudgedLint.Lint
