import JudgedLint.Text.Blank
import JudgedLint.Text.Digit
import JudgedLint.Text.Quoted

/-! Sizes of log files, written as a number and a unit. -/
namespace JudgedLint.Log

inductive SizeError where
  | form (text : String)
  | digits (count : Nat)
  /-- A unit that looks like a known one but is spelled with another letter. -/
  | unit (name : String)
  deriving DecidableEq, Repr

def SizeError.message : SizeError → String
  | .form text => s!"Invalid size format: {Text.quoted text}. Use e.g. '10MB'."
  | .digits count =>
    s!"Exceeds the limit (4300 digits) for integer string conversion: value has {count} digits; " ++
      "use sys.set_int_max_str_digits() to increase the limit"
  | .unit name => Text.quoted name

def sizeUnits : List (String × Nat) :=
  [("B", 1), ("KB", 1024), ("MB", 1048576), ("GB", 1073741824)]

def kelvinSign : Char := Char.ofNat 0x212A

/-- The unit that a word names in any case; the Kelvin sign passes for a letter but names none. -/
def unitOf? (word : List Char) : Option (Except SizeError Nat) :=
  let folded := String.ofList (word.map fun c => if c == kelvinSign then 'K' else c.toUpper)
  let upper := String.ofList (word.map Char.toUpper)
  (sizeUnits.lookup folded).map fun n =>
    if upper == folded then .ok n else .error (.unit upper)

/-- The number that decimal digits of any script write. -/
def digitsValue (cs : List Char) : Nat :=
  cs.foldl (fun n c => 10 * n + (Text.digitValue? c).getD 0) 0

def parseSize (s : String) : Except SizeError Nat :=
  let cs := (Text.trim s).toList
  let digits := cs.takeWhile Text.isDecimalDigit
  let word := (cs.drop digits.length).dropWhile Text.isBlank
  match digits.isEmpty, unitOf? word with
  | false, some unit =>
    if 4300 < digits.length then .error (.digits digits.length)
    else unit.map fun n => digitsValue digits * n
  | _, _ => .error (.form s)

end JudgedLint.Log
