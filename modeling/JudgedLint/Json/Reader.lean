import JudgedLint.Json.Basic
import JudgedLint.Decimal.Reading
import JudgedLint.Text.Hex
import JudgedLint.Text.Surrogate

/-! Reading JSON.

The grammar is the usual one, with `NaN` and the infinities as numbers. A fault is reported with its
cause and its place; limits on nesting and on the digits of whole numbers belong to the reader. -/
namespace JudgedLint.Json

inductive Fault where
  | expectingValue
  | expectingName
  | expectingColon
  | expectingComma
  | unterminatedText
  | controlCharacter
  | invalidEscape
  | invalidUnicodeEscape
  | extraData
  | byteOrderMark
  /-- A surrogate without its partner, for a reader that takes none. -/
  | unpairedSurrogate
  | nesting (inObject : Bool)
  | longNumber (digits : Nat)
  deriving DecidableEq, Repr

def Fault.text : Fault → String
  | .expectingValue => "Expecting value"
  | .expectingName => "Expecting property name enclosed in double quotes"
  | .expectingColon => "Expecting ':' delimiter"
  | .expectingComma => "Expecting ',' delimiter"
  | .unterminatedText => "Unterminated string starting at"
  | .controlCharacter => "Invalid control character at"
  | .invalidEscape => "Invalid \\escape"
  | .invalidUnicodeEscape => "Invalid \\uXXXX escape"
  | .extraData => "Extra data"
  | .byteOrderMark => "Unexpected UTF-8 BOM (decode using utf-8-sig)"
  | .unpairedSurrogate => "Unpaired surrogate"
  | .nesting inObject =>
    let container := if inObject then "object" else "array"
    s!"maximum recursion depth exceeded while decoding a JSON {container} from a unicode string"
  | .longNumber digits =>
    s!"Exceeds the limit (4300 digits) for integer string conversion: value has {digits} " ++
      "digits; use sys.set_int_max_str_digits() to increase the limit"

/-- A fault with line and column, counted from one, and the count of characters before it. -/
structure ReadError where
  fault : Fault
  line : Nat
  column : Nat
  offset : Nat
  deriving DecidableEq, Repr

/-- Whether the fault lies in the text's form rather than in a limit of the reader. -/
def ReadError.isMalformed (e : ReadError) : Bool :=
  match e.fault with
  | .nesting _ | .longNumber _ => false
  | _ => true

def ReadError.message (e : ReadError) : String :=
  if e.isMalformed then s!"{e.fault.text}: line {e.line} column {e.column} (char {e.offset})"
  else e.fault.text

structure Limits where
  unpaired : Bool
  depth : Nat
  digits : Nat
  /-- The sign counts as a digit, and a number with a fraction is bounded as a whole one is. -/
  boundsAll : Bool

def Limits.general : Limits := ⟨true, 970, 4300, false⟩

/-- Reads answers that must be exact: no surrogate stands alone, and nesting is shallow. -/
def Limits.strict : Limits := ⟨false, 201, 4300, true⟩

def Limits.isExceeded (l : Limits) (negative isWhole : Bool) (digits : Nat) : Bool :=
  if l.boundsAll then l.digits < digits + (if negative then 1 else 0)
  else isWhole && l.digits < digits

/-- A fault and the number of characters from it to the end. -/
abbrev Stop := Fault × Nat

def isSpace (c : Char) : Bool := c == ' ' || c == '\t' || c == '\n' || c == '\r'

def skipSpace (cs : List Char) : List Char := cs.dropWhile isSpace

/-- Four hexadecimal digits with at least one character behind them. -/
def hexQuad? : List Char → Option (Nat × List Char)
  | a :: b :: c :: d :: rest =>
    if rest.isEmpty then none else (Text.hexNumber? [a, b, c, d]).map (·, rest)
  | _ => none

def pairCode (high low : Nat) : Nat := 0x10000 + (high - 0xD800) * 0x400 + (low - 0xDC00)

def simpleEscape? (c : Char) : Option Nat :=
  if c == '"' || c == '\\' || c == '/' then some c.toNat
  else if c == 'b' then some 8
  else if c == 'f' then some 12
  else if c == 'n' then some 10
  else if c == 'r' then some 13
  else if c == 't' then some 9
  else none

/-- The characters of a text up to its closing quote; `whole` starts with its opening quote. -/
def textBody (l : Limits) (whole : List Char) :
    Nat → List Char → Except Stop (List Char × List Char)
  | 0, _ => .error (.unterminatedText, whole.length)
  | _, [] => .error (.unterminatedText, whole.length)
  | fuel + 1, c :: rest =>
    if c == '"' then .ok ([], rest)
    else if c.toNat < 32 then .error (.controlCharacter, rest.length + 1)
    else if c != '\\' then do
      let (text, tail) ← textBody l whole fuel rest
      return (c :: text, tail)
    else
      match rest with
      | [] => .error (.unterminatedText, whole.length)
      | e :: after =>
        if e != 'u' then
          match simpleEscape? e with
          | none => .error (.invalidEscape, rest.length + 1)
          | some code => do
            let (text, tail) ← textBody l whole fuel after
            return (Char.ofNat code :: text, tail)
        else
          match hexQuad? after with
          | none => .error (.invalidUnicodeEscape, after.length + 1)
          | some (code, after) =>
            let single : Except Stop (List Char × List Char) := do
              if !l.unpaired && Text.isSurrogate code then
                throw (.unpairedSurrogate, after.length)
              let (text, tail) ← textBody l whole fuel after
              return (Text.charOfCode code :: text, tail)
            match Text.isHighSurrogate code, after with
            | true, '\\' :: 'u' :: second =>
              -- a pair needs its four digits and one more character
              if (second.drop 4).isEmpty then single
              else
                match hexQuad? second with
                | none => .error (.invalidUnicodeEscape, second.length + 1)
                | some (low, beyond) =>
                  if Text.isLowSurrogate low then do
                    let (text, tail) ← textBody l whole fuel beyond
                    return (Char.ofNat (pairCode code low) :: text, tail)
                  else single
            | _, _ => single

def fractionOf (cs : List Char) : Option (List Char) × List Char :=
  match cs with
  | '.' :: rest =>
    let digits := rest.takeWhile Char.isDigit
    if digits.isEmpty then (none, cs) else (some digits, rest.dropWhile Char.isDigit)
  | _ => (none, cs)

def exponentOf (cs : List Char) : Option Int × List Char :=
  match cs with
  | e :: rest =>
    if e == 'e' || e == 'E' then
      let (negative, rest) :=
        match rest with
        | '+' :: r => (false, r)
        | '-' :: r => (true, r)
        | r => (false, r)
      let digits := rest.takeWhile Char.isDigit
      match Text.decimalNumber? digits with
      | none => (none, cs)
      | some n => (some (if negative then -(n : Int) else n), rest.dropWhile Char.isDigit)
    else (none, cs)
  | [] => (none, cs)

/-- The digits in front of a point or an exponent; behind a zero there are no more. -/
def wholePart (cs : List Char) : List Char × List Char :=
  match cs with
  | '0' :: rest => (['0'], rest)
  | _ => (cs.takeWhile Char.isDigit, cs.dropWhile Char.isDigit)

/-- A number at the start of `here`; `cs` is what stands behind its sign. -/
def number (l : Limits) (negative : Bool) (here cs : List Char) :
    Except Stop (Json × List Char) :=
  let (whole, rest) := wholePart cs
  match Text.decimalNumber? whole with
  | none => .error (.expectingValue, here.length)
  | some n =>
    let (fraction, rest) := fractionOf rest
    let (exponent, rest) := exponentOf rest
    let isWhole := fraction.isNone && exponent.isNone
    if l.isExceeded negative isWhole whole.length then
      .error (.longNumber whole.length, here.length)
    else if isWhole then .ok (.int (if negative then -(n : Int) else n), rest)
    else
      let digits := fraction.getD []
      let mant := (Text.decimalNumber? (whole ++ digits)).getD n
      let x := Decimal.floatOfDecimal negative mant (exponent.getD 0 - digits.length)
      .ok (.float x, rest)

def keyword? (word : String) (cs : List Char) : Option (List Char) :=
  if word.toList.isPrefixOf cs then some (cs.drop word.length) else none

def words : List (String × Json) :=
  [("null", .null), ("true", .bool true), ("false", .bool false), ("NaN", .float (0.0 / 0.0)),
   ("Infinity", .float (1.0 / 0.0)), ("-Infinity", .float (-1.0 / 0.0))]

def word? (cs : List Char) : Option (Json × List Char) :=
  words.findSome? fun w => (keyword? w.1 cs).map (w.2, ·)

def scalar (l : Limits) (fuel : Nat) (cs : List Char) : Except Stop (Json × List Char) :=
  match word? cs with
  | some r => .ok r
  | none =>
    match cs with
    | '"' :: rest => do
      let (text, rest) ← textBody l cs fuel rest
      return (.str (String.ofList text), rest)
    | '-' :: rest => number l true cs rest
    | _ => number l false cs cs

mutual
/-- A value at the start of `cs`, where `depth` more levels may be opened. -/
def value (l : Limits) : Nat → Nat → List Char → Except Stop (Json × List Char)
  | 0, _, cs => .error (.expectingValue, cs.length)
  | fuel + 1, depth, cs =>
    match cs with
    | '[' :: rest =>
      match depth with
      | 0 => .error (.nesting false, cs.length)
      | depth + 1 => do
        let rest := skipSpace rest
        match rest with
        | ']' :: rest => return (.arr [], rest)
        | _ =>
          let (vs, rest) ← itemList l fuel depth rest
          return (.arr vs, rest)
    | '\x7b' :: rest =>
      match depth with
      | 0 => .error (.nesting true, cs.length)
      | depth + 1 => do
        let rest := skipSpace rest
        match rest with
        | '\x7d' :: rest => return (.obj [], rest)
        | _ =>
          let (ms, rest) ← memberList l fuel depth rest
          return (.obj (members ms), rest)
    | _ => scalar l fuel cs

def itemList (l : Limits) : Nat → Nat → List Char → Except Stop (List Json × List Char)
  | 0, _, cs => .error (.expectingValue, cs.length)
  | fuel + 1, depth, cs => do
    let (v, rest) ← value l fuel depth cs
    match skipSpace rest with
    | ']' :: rest => return ([v], rest)
    | ',' :: rest =>
      let (vs, rest) ← itemList l fuel depth (skipSpace rest)
      return (v :: vs, rest)
    | rest => throw (.expectingComma, rest.length)

def memberList (l : Limits) : Nat → Nat → List Char → Except Stop (List (String × Json) × List Char)
  | 0, _, cs => .error (.expectingName, cs.length)
  | fuel + 1, depth, cs =>
    match cs with
    | '"' :: rest => do
      let (text, rest) ← textBody l cs fuel rest
      let name := String.ofList text
      match skipSpace rest with
      | ':' :: rest =>
        let (v, rest) ← value l fuel depth (skipSpace rest)
        match skipSpace rest with
        | '\x7d' :: rest => return ([(name, v)], rest)
        | ',' :: rest =>
          let (ms, rest) ← memberList l fuel depth (skipSpace rest)
          return ((name, v) :: ms, rest)
        | rest => throw (.expectingComma, rest.length)
      | rest => throw (.expectingColon, rest.length)
    | _ => .error (.expectingName, cs.length)
end

/-- The place of a fault, given the count of characters from it to the end. -/
def locate (cs : List Char) (stop : Stop) : ReadError :=
  let offset := cs.length - stop.2
  let before := cs.take offset
  let line := before.count '\n' + 1
  let column := (before.reverse.takeWhile (· != '\n')).length + 1
  ⟨stop.1, line, column, offset⟩

/-- A document: one value with nothing but space around it. -/
def document (l : Limits) (cs : List Char) : Except Stop Json :=
  if cs.head? == some '\uFEFF' then .error (.byteOrderMark, cs.length)
  else do
    let (v, rest) ← value l (2 * cs.length + 2) l.depth (skipSpace cs)
    let rest := skipSpace rest
    if rest.isEmpty then return v else throw (.extraData, rest.length)

def parse (l : Limits) (s : String) : Except ReadError Json :=
  (document l s.toList).mapError (locate s.toList)

end JudgedLint.Json
