import JudgedLint.Text.Quoted

/-! What can be wrong with a document of the configuration language.

Most faults concern the form of the document. The others arise when a scalar that claims a type does
not write a value of that type. -/
namespace JudgedLint.Yaml

inductive Fault where
  /-- The document does not follow the grammar, or a node cannot be what it is tagged as. -/
  | malformed
  | codePoint (n : Nat)
  | emptyNumber
  | integer (base : Nat) (text : String)
  | longInteger (digits : Nat)
  | float (text : String)
  | truthWord (text : String)
  | notMoment
  | mappingForMoment
  | largeInteger
  | unwritable
  /-- A date or time of day that the calendar does not have. -/
  | calendar (reason : String)
  | offset (seconds : Int)
  deriving DecidableEq, Repr

def Fault.isMalformed : Fault → Bool
  | .malformed => true
  | _ => false

/-- The numbers below it fit into a signed word of 32 bits. -/
def wordBound : Nat := 2147483648

def Fault.kind : Fault → String
  | .malformed => "YAMLError"
  | .codePoint n => if n < wordBound then "ValueError" else "OverflowError"
  | .largeInteger => "OverflowError"
  | .mappingForMoment => "TypeError"
  | .emptyNumber => "IndexError"
  | .truthWord _ => "KeyError"
  | .notMoment => "AttributeError"
  | _ => "ValueError"

def Fault.message : Fault → String
  | .malformed => ""
  | .codePoint n =>
    if n < wordBound then "chr() arg not in range(0x110000)"
    else "Python int too large to convert to C int"
  | .emptyNumber => "string index out of range"
  | .integer base text =>
    -- a long text is shown by its beginning
    let shown := String.ofList ((Text.quoted text).toList.take 200)
    s!"invalid literal for int() with base {base}: {shown}"
  | .longInteger digits =>
    s!"Exceeds the limit (4300 digits) for integer string conversion: value has {digits} " ++
      "digits; use sys.set_int_max_str_digits() to increase the limit"
  | .float text => s!"could not convert string to float: {Text.quoted text}"
  | .truthWord text => Text.quoted text
  | .notMoment => "'NoneType' object has no attribute 'groupdict'"
  | .mappingForMoment => "expected string or bytes-like object, got 'list'"
  | .largeInteger => "int too large to convert to float"
  | .unwritable =>
    "Exceeds the limit (4300 digits) for integer string conversion; " ++
      "use sys.set_int_max_str_digits() to increase the limit"
  | .calendar reason => reason
  | .offset seconds =>
    let days := seconds.fdiv 86400
    let left := seconds - days * 86400
    let delta :=
      if days == 0 then s!"seconds={left}"
      else if left == 0 then s!"days={days}"
      else s!"days={days}, seconds={left}"
    "offset must be a timedelta strictly between -timedelta(hours=24) and timedelta(hours=24), " ++
      s!"not datetime.timedelta({delta})."

end JudgedLint.Yaml
