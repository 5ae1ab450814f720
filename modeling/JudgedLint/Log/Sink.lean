import JudgedLint.Log.File
import JudgedLint.Log.Layout
import JudgedLint.Text.Search

/-! Where log records go: to the error stream, and to a file if one is set, from a level up. -/
namespace JudgedLint.Log

open Calendar (Moment)
open Workspace (Path Tree FileError)

structure Sink where
  /-- The number of the lowest level that is written; zero if none is set. -/
  threshold : Nat
  layout : Layout
  file : Option LogFile
  deriving Repr

/-- Level names with their numbers; some levels have a second name. -/
def thresholds : List (String × Nat) :=
  [("DEBUG", 10), ("INFO", 20), ("WARNING", 30), ("WARN", 30), ("ERROR", 40), ("CRITICAL", 50),
   ("FATAL", 50), ("NOTSET", 0)]

inductive SinkError where
  | setup (e : FileSetupError)
  /-- A name that stands for something else than a level. -/
  | level (shown : String)
  deriving DecidableEq, Repr

namespace Sink

def defaultThreshold : Nat := 30

/-- The number of a level's name in any case; an unknown name means warnings. -/
def thresholdOf (name : String) : Except SinkError Nat :=
  let upper := Text.upperAscii name
  if upper == "BASIC_FORMAT" then .error (.level "'%(levelname)s:%(name)s:%(message)s'")
  else .ok ((thresholds.lookup upper).getD defaultThreshold)

def layoutOf (name : String) : Layout := if name == "json" then .json else .text

/-- Sets up where records go; the directory of a log file is made if it is missing. -/
def configure (t : Tree) (level layout : String) (file : Option Path) (rotation : String)
    (retention : Int) : Except SinkError (Sink × Tree) := do
  let threshold ← thresholdOf level
  match file with
  | none => return (⟨threshold, layoutOf layout, none⟩, t)
  | some path =>
    let (f, t) ← (LogFile.open t path rotation retention).mapError .setup
    return (⟨threshold, layoutOf layout, some f⟩, t)

/-- Whether records of a level are written. A sink without a level takes warnings and worse. -/
def takes (s : Sink) (level : Level) : Bool :=
  (if s.threshold == 0 then defaultThreshold else s.threshold) ≤ level.number

/-- Writes records; gives what goes to the error stream, and the tree with the log file. -/
def write (s : Sink) (now : Moment) (t : Tree) (rs : List Record) : String × Tree :=
  let lines := (rs.filter fun r => s.takes r.level).map (Record.render s.layout now)
  let t := match s.file with
    | none => t
    | some f => lines.foldl f.append t
  (String.join (lines.map (· ++ "\n")), t)

end Sink
end JudgedLint.Log
