import JudgedLint.Decimal.Reading
import JudgedLint.Form.Fault

/-! Numbers that texts write, as fields of a record take them.

A text is cleaned first: space around it, a plus sign, zeros in front, a fraction of zeros, and
single underscores between other characters do not count. What is left must be a plain numeral. -/
namespace JudgedLint.Form

/-- A text without its underscores, each of which must stand alone between other characters. -/
def dropUnderscores? (cs : List Char) : Option (List Char) :=
  let isDouble := (cs.zip (cs.drop 1)).any fun p => p.1 == '_' && p.2 == '_'
  if cs.head? == some '_' || cs.getLast? == some '_' || isDouble then none
  else some (cs.filter (· != '_'))

/-- The longest numeral that is read as a whole number, its sign included. -/
def numeralLimit : Nat := 4300

def signed (cs : List Char) : Bool × List Char :=
  match cs with
  | '-' :: rest => (true, rest)
  | _ => (false, cs)

/-- The whole number of a plain numeral: perhaps a minus sign, and digits without a zero in front.
Too many digits are a fault whatever follows them. -/
def plainInteger (cs : List Char) : Except Fault Int :=
  let (negative, body) := signed cs
  let digits := body.takeWhile Char.isDigit
  if digits.head? == some '0' && 1 < digits.length then .error .integerText
  else if numeralLimit < (if negative then 1 else 0) + digits.length then .error .integerSize
  else if digits.length < body.length then .error .integerText
  else
    match Text.decimalNumber? digits with
    | none => .error .integerText
    | some n => .ok (if negative then -(n : Int) else n)

/-- What stands behind zeros and single underscores: digits, or a minus sign, or the last of the
zeros with the fraction behind it. -/
def behindZeros (last : Char) : List Char → Option (List Char)
  | [] => some [last]
  | c :: rest =>
    if c == '0' || (c == '_' && last != '_') then behindZeros c rest
    else if c.isDigit || c == '-' then some (c :: rest)
    else if c == '.' then some (last :: c :: rest)
    else none

def dropZeros? : List Char → Option (List Char)
  | [] => none
  | c :: rest =>
    if c == '0' then behindZeros c rest
    else if c.isDigit || c == '-' then some (c :: rest)
    else none

def dropZeroFraction (cs : List Char) : List Char :=
  match cs.span (· != '.') with
  | (whole, _ :: fraction) =>
    if !fraction.isEmpty && fraction.all (· == '0') then whole else cs
  | _ => cs

def cleanInteger? (cs : List Char) : Option (List Char) := do
  let trimmed := Text.trimSpace cs
  let unsigned ← (match trimmed with
    | '+' :: '-' :: _ => none
    | '+' :: rest => some rest
    | _ => some trimmed : Option (List Char))
  let plain := dropZeroFraction (← dropZeros? unsigned)
  return (dropUnderscores? plain).getD plain

def integerOfText (s : String) : Except Fault Int :=
  match plainInteger s.toList, cleanInteger? s.toList with
  | .error .integerText, some cs => plainInteger cs
  | r, _ => r

/-- The number that a text writes: with space around it, or with underscores in it. -/
def numberOfText? (s : String) : Option Float :=
  let cs := s.toList
  (Decimal.floatOfNumeral? (Text.trimSpace cs)).orElse fun _ =>
    (dropUnderscores? cs).bind Decimal.floatOfNumeral?

end JudgedLint.Form
