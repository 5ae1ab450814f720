import JudgedLint.Calendar
import JudgedLint.Json.Writer
import JudgedLint.Log.Record

/-! How log records are written: as a line for people, or as an object for programs. -/
namespace JudgedLint.Log

open Calendar (Moment)

inductive Layout where
  | text
  | json
  deriving DecidableEq, Repr, Inhabited

def Record.textLine (now : Moment) (r : Record) : String :=
  let named (s : Option String) (f : String → String) : List String :=
    match s with
    | some s => if s.isEmpty then [] else [f s]
    | none => []
  let parts := [now.timeText, s!"[{r.level.name}]", r.logger] ++
    named r.context.rule (fun s => s!"[{s}]") ++ named r.context.file (fun s => s!"({s})") ++
    [s!"— {r.message}"]
  " ".intercalate parts ++ (match r.exception with
    | some e => "\n" ++ e
    | none => "")

/-- The record as an object; context and error only if there are any. -/
def Record.toJson (now : Moment) (r : Record) : Json :=
  .obj <| [("timestamp", .str (now.text "T")), ("level", .str r.level.name),
    ("logger", .str r.logger), ("message", .str r.message)] ++
    (if r.context.known.isEmpty then [] else [("context", r.context.toJson)]) ++
    (r.exception.map fun e => ("exception", Json.str e)).toList

def Record.render (layout : Layout) (now : Moment) (r : Record) : String :=
  match layout with
  | .text => r.textLine now
  | .json => Json.render .line (r.toJson now)

end JudgedLint.Log
