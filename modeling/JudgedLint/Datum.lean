import JudgedLint.Calendar
import JudgedLint.Json.Basic
import JudgedLint.Decimal.Shortest
import JudgedLint.Text.Quoted

/-! Data of unknown shape, as configuration files and answers bring it.

A datum that stands in more than one place of a document carries a label there; the label tells
shared data from equal data, and nothing else depends on it. -/
namespace JudgedLint

open Calendar (Date Moment)

inductive Datum where
  | null
  | bool (b : Bool)
  | int (n : Int)
  | float (x : Float)
  | str (s : String)
  | bytes (bs : List UInt8)
  | date (d : Date)
  | moment (m : Moment)
  | list (items : List Datum)
  | set (items : List Datum)
  | map (entries : List (Datum × Datum))
  /-- The datum of a node that other places of the document may refer to. -/
  | labelled (label : Nat) (d : Datum)
  /-- A place inside the labelled datum that refers back to it. -/
  | back (label : Nat) (isMap : Bool)
  deriving Inhabited

namespace Datum

mutual
def ofJson : Json → Datum
  | .null => .null
  | .bool b => .bool b
  | .int n => .int n
  | .float x => .float x
  | .str s => .str s
  | .arr items => .list (ofItems items)
  | .obj ms => .map (ofMembers ms)

def ofItems : List Json → List Datum
  | [] => []
  | j :: rest => ofJson j :: ofItems rest

def ofMembers : List (String × Json) → List (Datum × Datum)
  | [] => []
  | (k, j) :: rest => (.str k, ofJson j) :: ofMembers rest
end

def bare : Datum → Datum
  | .labelled _ d => bare d
  | .back _ true => .map []
  | .back _ false => .list []
  | d => d

/-- Nothing, zero and what is empty count as false. -/
def isTruthy (d : Datum) : Bool :=
  match d with
  | .back _ _ => true
  | _ =>
    match d.bare with
    | .null => false
    | .bool b => b
    | .int n => n != 0
    | .float x => x != 0.0
    | .str s => !s.isEmpty
    | .bytes bs => !bs.isEmpty
    | .list xs => !xs.isEmpty
    | .set xs => !xs.isEmpty
    | .map es => !es.isEmpty
    | _ => true

def isNull (d : Datum) : Bool :=
  match d.bare with
  | .null => true
  | _ => false

/-- Numbers that stand for the same key: whole floats and truth values are whole numbers. -/
def numeric? (d : Datum) : Option (Sum Int Float) :=
  match d.bare with
  | .bool b => some (.inl (if b then 1 else 0))
  | .int n => some (.inl n)
  | .float x =>
    match Decimal.isWhole x, Decimal.truncate? x with
    | true, some n => some (.inl n)
    | _, _ => some (.inr x)
  | _ => none

/-- Whether two keys are the same key. What is not a number is the same as itself. -/
def sameKey (a b : Datum) : Bool :=
  match a.numeric?, b.numeric? with
  | some (.inl m), some (.inl n) => m == n
  | some (.inr x), some (.inr y) => x == y || (x.isNaN && y.isNaN)
  | none, none =>
    match a.bare, b.bare with
    | .null, .null => true
    | .str s, .str t => s == t
    | .bytes s, .bytes t => s == t
    | .date s, .date t => s == t
    | .moment s, .moment t =>
      -- moments in different zones are the same if they are the same point in time
      s.offset.isSome == t.offset.isSome &&
        (s.date.dayNumber * 86400 + s.hour * 3600 + s.minute * 60 + s.second - s.offset.getD 0 ==
          t.date.dayNumber * 86400 + t.hour * 3600 + t.minute * 60 + t.second - t.offset.getD 0) &&
        s.micro == t.micro
    | _, _ => false
  | _, _ => false

/-- Puts a value under a key: an earlier entry keeps its key and place. -/
def insert (key value : Datum) : List (Datum × Datum) → List (Datum × Datum)
  | [] => [(key, value)]
  | (k, v) :: rest =>
    if sameKey k key then (k, value) :: rest else (k, v) :: insert key value rest

def entries (d : Datum) : List (Datum × Datum) :=
  match d.bare with
  | .map es => es
  | _ => []

def isMap (d : Datum) : Bool :=
  match d.bare with
  | .map _ => true
  | _ => false

def get? (key : String) (d : Datum) : Option Datum :=
  (d.entries.find? fun e => sameKey e.1 (.str key)).map (·.2)

def str? (d : Datum) : Option String :=
  match d.bare with
  | .str s => some s
  | _ => none

def unhashable? (d : Datum) : Option String :=
  match d.bare with
  | .list _ => some "list"
  | .set _ => some "set"
  | .map _ => some "dict"
  | _ => none

def showMoment (m : Moment) : String :=
  let base := s!"{m.date.year}, {m.date.month}, {m.date.day}, {m.hour}, {m.minute}"
  let base := if m.second == 0 && m.micro == 0 then base else s!"{base}, {m.second}"
  let base := if m.micro == 0 then base else s!"{base}, {m.micro}"
  let zone := match m.offset with
    | none => ""
    | some o =>
      if o == 0 then ", tzinfo=datetime.timezone.utc"
      else
        let days := o.fdiv 86400
        let seconds := o - days * 86400
        let delta := if days == 0 then s!"seconds={seconds}" else s!"days={days}, seconds={seconds}"
        s!", tzinfo=datetime.timezone(datetime.timedelta({delta}))"
  s!"datetime.datetime({base}{zone})"

/-- How many digits a whole number may have to be written out. -/
def digitLimit : Nat := 4300

def isWritable (n : Int) : Bool := (toString n.natAbs).length ≤ digitLimit

/-- A key as messages name it: texts plainly, other values as they would be written in code. -/
def keyText (d : Datum) : String :=
  match d.bare with
  | .null => "None"
  | .bool b => if b then "1" else "0"
  | .int n => if isWritable n then toString n else "<unprintable int object>"
  | .float x => Decimal.floatText x
  | .str s => s
  | .bytes bs => Text.quotedBytes bs
  | .date d => s!"datetime.date({d.year}, {d.month}, {d.day})"
  | .moment m => showMoment m
  | _ => "?"

end Datum
end JudgedLint
