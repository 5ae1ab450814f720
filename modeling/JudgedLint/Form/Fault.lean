import JudgedLint.Text.Search

/-! What can be wrong with a field of a record, and the reports made of it. -/
namespace JudgedLint.Form

inductive Fault where
  | missing
  | extra
  | notText
  | illFormedText
  | pattern (written : String)
  | tooShort (least : Nat)
  | notOneOf (choices : List String)
  | notInteger
  | integerText
  | integerSize
  | fraction
  | infinite
  | atLeast (bound : Int)
  | atMost (bound : Int)
  | above (bound : Int)
  | notNumber
  | numberText
  | notBool
  | boolText
  | notList
  | notMapping
  | notPath
  | notMoment
  /-- Data for a record of the given name that are no mapping. -/
  | notRecord (name : String)
  | notObject
  | keyNotText
  | invalidJson
  /-- A rule of the record's own, in its own words. -/
  | rule (text : String)
  deriving DecidableEq, Repr

/-- Choices in quotes: commas between them, `or` before the last. -/
def choicesText (choices : List String) : String :=
  let shown := choices.map fun c => if c.toInt?.isSome then c else s!"'{c}'"
  match shown.reverse with
  | [] => ""
  | [only] => only
  | last :: before => Text.join ", " before.reverse ++ " or " ++ last

def Fault.message : Fault → String
  | .missing => "Field required"
  | .extra => "Extra inputs are not permitted"
  | .notText => "Input should be a valid string"
  | .illFormedText =>
    "Input should be a valid string, unable to parse raw data as a unicode string"
  | .pattern written => s!"String should match pattern '{written}'"
  | .tooShort least =>
    s!"String should have at least {least} character" ++ (if least == 1 then "" else "s")
  | .notOneOf choices => s!"Input should be {choicesText choices}"
  | .notInteger => "Input should be a valid integer"
  | .integerText => "Input should be a valid integer, unable to parse string as an integer"
  | .integerSize => "Unable to parse input string as an integer, exceeded maximum size"
  | .fraction => "Input should be a valid integer, got a number with a fractional part"
  | .infinite => "Input should be a finite number"
  | .atLeast bound => s!"Input should be greater than or equal to {bound}"
  | .atMost bound => s!"Input should be less than or equal to {bound}"
  | .above bound => s!"Input should be greater than {bound}"
  | .notNumber => "Input should be a valid number"
  | .numberText => "Input should be a valid number, unable to parse string as a number"
  | .notBool => "Input should be a valid boolean"
  | .boolText => "Input should be a valid boolean, unable to interpret input"
  | .notList => "Input should be a valid list"
  | .notMapping => "Input should be a valid dictionary"
  | .notPath => "Input is not a valid path"
  | .notMoment => "Input should be a valid datetime"
  | .notRecord name => s!"Input should be a valid dictionary or instance of {name}"
  | .notObject => "Input should be an object"
  | .keyNotText => "Keys should be strings"
  | .invalidJson => "Invalid JSON"
  | .rule text => s!"Value error, {text}"

/-- A step of the way to a field: the name of a member or the place of an item. -/
inductive Step where
  | name (text : String)
  | item (index : Nat)
  deriving DecidableEq, Repr

def Step.text : Step → String
  | .name s => s
  | .item n => toString n

structure Error where
  path : List Step
  fault : Fault
  deriving DecidableEq, Repr

/-- The error seen from one level further out. -/
def Error.under (step : Step) (e : Error) : Error := { e with path := step :: e.path }

def pathText (path : List Step) : String :=
  if path.isEmpty then "root" else "/" ++ Text.join "/" (path.map Step.text)

def Error.plainLine (e : Error) : String := s!"{pathText e.path}: {e.fault.message}"

def Fault.friendly : Fault → String
  | .missing => "is required"
  | .extra => "is not an allowed property"
  | .rule text => text
  | f@(.pattern _) =>
    f.message ++ " (expected format: lowercase with underscores, e.g., 'my_rule_id')"
  | f => f.message

def Error.friendlyLine (e : Error) : String := s!"  - {pathText e.path}: {e.fault.friendly}"

def friendlyReport (errors : List Error) : String := Text.join "\n" (errors.map Error.friendlyLine)

def headline (record : String) (errors : List Error) : String :=
  let n := errors.length
  if n == 1 then s!"1 validation error for {record}" else s!"{n} validation errors for {record}"

/-- A value, or everything that is wrong with the data for it. -/
abbrev Checked (α : Type) := Except (List Error) α

/-- Combines two checks; the faults of both are kept, in order. -/
def Checked.apply {α β : Type} (f : Checked (α → β)) (a : Checked α) : Checked β :=
  match f, a with
  | .ok f, .ok a => .ok (f a)
  | .error e, .ok _ => .error e
  | .ok _, .error e => .error e
  | .error e, .error e' => .error (e ++ e')

def Checked.also {α : Type} (a : Checked α) (more : List Error) : Checked α :=
  match a with
  | .ok a => if more.isEmpty then .ok a else .error more
  | .error e => .error (e ++ more)

def Checked.under {α : Type} (step : Step) (a : Checked α) : Checked α :=
  a.mapError (·.map (Error.under step))

def fail {α : Type} (f : Fault) : Checked α := .error [⟨[], f⟩]

end JudgedLint.Form
