import JudgedLint.Datum
import JudgedLint.Form.Numeral
import JudgedLint.Text.Utf8

/-! Readers that turn data of unknown shape into typed values.

They are lenient where nothing is lost: a whole float or a numeral is an integer, the usual words
are truth values, bytes in UTF-8 are a text. -/
namespace JudgedLint.Form

abbrev Reader (α : Type) := Datum → Checked α

def text : Reader String := fun d =>
  match d.bare with
  | .str s => .ok s
  | .bytes bs =>
    match Text.utf8Decode bs with
    | .ok s => .ok s
    | .error _ => fail .illFormedText
  | _ => fail .notText

/-- The text, if no surrogate stands alone in it. -/
def wellFormed (s : String) : Checked String :=
  if Text.isWellFormed s then .ok s else fail .illFormedText

def textOfLength (least : Nat) : Reader String := fun d => do
  let s ← wellFormed (← text d)
  if s.length < least then fail (.tooShort least) else return s

/-- A text whose characters satisfy `p`; `written` describes `p` in messages. -/
def textMatching (p : String → Bool) (written : String) : Reader String := fun d => do
  let s ← wellFormed (← text d)
  if p s then return s else fail (.pattern written)

def optional {α : Type} (r : Reader α) : Reader (Option α) := fun d =>
  if d.isNull then .ok none else (r d).map some

def oneOf {α : Type} (choices : List (String × α)) : Reader α := fun d =>
  let other : Fault := .notOneOf (choices.map (·.1))
  match d.str? with
  | none => fail other
  | some s => do
    match choices.lookup (← wellFormed s) with
    | some a => return a
    | none => fail other

/-- The numbers below it fit into a signed word of 64 bits. -/
def longBound : Int := 9223372036854775808

def integerOfFloat (x : Float) : Checked Int :=
  match Decimal.truncate? x with
  | none => fail .infinite
  | some n =>
    if !Decimal.isWhole x then fail .fraction
    else if -longBound < n && n < longBound then .ok n
    else fail .integerSize

def integerOfString (s : String) : Checked Int := do
  match integerOfText (← wellFormed s) with
  | .ok n => return n
  | .error f => fail f

def integer : Reader Int := fun d =>
  match d.bare with
  | .bool b => .ok (if b then 1 else 0)
  | .int n => .ok n
  | .float x => integerOfFloat x
  | .str s => integerOfString s
  | .bytes bs =>
    match Text.utf8Decode bs with
    | .ok s => integerOfString s
    | .error _ => fail .integerText
  | _ => fail .notInteger

def trueWords : List String := ["1", "on", "t", "true", "y", "yes"]
def falseWords : List String := ["0", "off", "f", "false", "n", "no"]

def boolOfString (s : String) : Checked Bool := do
  let word := String.ofList ((← wellFormed s).toList.map Char.toLower)
  if trueWords.contains word then return true
  else if falseWords.contains word then return false
  else fail .boolText

def boolOfInt (n : Int) : Checked Bool :=
  if n == 0 then .ok false else if n == 1 then .ok true else fail .boolText

def truth : Reader Bool := fun d =>
  match d.bare with
  | .bool b => .ok b
  | .str s => boolOfString s
  | .bytes bs =>
    match Text.utf8Decode bs with
    | .ok s => boolOfString s
    | .error _ => fail .boolText
  | .int n => if -longBound ≤ n && n < longBound then boolOfInt n else fail .notBool
  | .float x =>
    match integerOfFloat x with
    | .ok n => boolOfInt n
    | .error _ => fail .notBool
  | _ => fail .notBool

/-- Every item, each with its place in the path of its faults. -/
def itemsFrom {α : Type} (r : Reader α) : Nat → List Datum → Checked (List α)
  | _, [] => .ok []
  | i, d :: rest =>
    Checked.apply (((r d).under (.item i)).map List.cons) (itemsFrom r (i + 1) rest)

def listOf {α : Type} (r : Reader α) : Reader (List α) := fun d =>
  match d.bare with
  | .list ds => itemsFrom r 0 ds
  | .set ds => itemsFrom r 0 ds
  | _ => fail .notList

def required {α : Type} (name : String) (r : Reader α) (d : Datum) : Checked α :=
  match d.get? name with
  | none => .error [⟨[.name name], .missing⟩]
  | some v => (r v).under (.name name)

def withDefault {α : Type} (name : String) (default : α) (r : Reader α) (d : Datum) : Checked α :=
  match d.get? name with
  | none => .ok default
  | some v => (r v).under (.name name)

/-- A member under one of two names; the first is tried first and named in faults. -/
def requiredEither {α : Type} (name other : String) (r : Reader α) (d : Datum) : Checked α :=
  match d.get? name with
  | some v => (r v).under (.name name)
  | none =>
    match d.get? other with
    | some v => (r v).under (.name other)
    | none => .error [⟨[.name name], .missing⟩]

/-- The members that a record does not know, and the keys that are no texts. -/
def strangers (known : List String) (d : Datum) : List Error :=
  d.entries.filterMap fun e =>
    match e.1.bare with
    | .str key => if known.contains key then none else some ⟨[.name key], .extra⟩
    | k => some ⟨[.name k.keyText], .keyNotText⟩

/-- A record that knows all its members. A key that is no well-formed text hides all other
faults. -/
def closed {α : Type} (known : List String) (body : Datum → Checked α) (d : Datum) : Checked α :=
  if d.entries.all fun e => (e.1.str?.map Text.isWellFormed).getD true then
    (body d).also (strangers known d)
  else fail .illFormedText

def record {α : Type} (name : String) (body : Datum → Checked α) : Reader α := fun d =>
  if d.isMap then body d else fail (.notRecord name)

end JudgedLint.Form
