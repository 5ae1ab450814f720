import JudgedLint.Text.Blank
import JudgedLint.Text.Hex

/-! Reading decimal notation as the nearest float. -/
namespace JudgedLint.Decimal

/-- `± digits · 10 ^ exp` rounded to the nearest float. Exponents far outside the range of floats
are answered without computing the power. -/
def floatOfDecimal (negative : Bool) (digits : Nat) (exp : Int) : Float :=
  let size : Int := (toString digits).length
  let magnitude : Float :=
    if digits == 0 then 0.0
    else if 310 < size + exp then 1.0 / 0.0
    else if size + exp < -330 then 0.0
    else if 0 ≤ exp then Float.ofScientific digits false exp.toNat
    else Float.ofScientific digits true (-exp).toNat
  if negative then -magnitude else magnitude

def floatOfInt (n : Int) : Float := floatOfDecimal (n < 0) n.natAbs 0

def floatWord? (s : String) : Option Float :=
  if s == "inf" || s == "infinity" then some (1.0 / 0.0)
  else if s == "nan" then some (0.0 / 0.0)
  else none

def exponent? (cs : List Char) : Option Int :=
  match cs with
  | [] => some 0
  | _ :: '+' :: ds => (Text.decimalNumber? ds).map Int.ofNat
  | _ :: '-' :: ds => (Text.decimalNumber? ds).map fun n => -(n : Int)
  | _ :: ds => (Text.decimalNumber? ds).map Int.ofNat

/-- A number with optional fraction and exponent; `cs` is what stands behind its sign. -/
def unsignedFloat? (negative : Bool) (cs : List Char) : Option Float := do
  let (mantissa, exponent) := cs.span fun c => c != 'e' && c != 'E'
  let (whole, fraction) := mantissa.span (· != '.')
  let fraction := fraction.drop 1
  let digits ← Text.decimalNumber? (whole ++ fraction)
  return floatOfDecimal negative digits ((← exponent? exponent) - fraction.length)

/-- The number that a numeral writes: perhaps a sign, then digits with optional point and exponent,
or a word. -/
def floatOfNumeral? (cs : List Char) : Option Float :=
  let (negative, body) :=
    match cs with
    | '-' :: rest => (true, rest)
    | '+' :: rest => (false, rest)
    | _ => (false, cs)
  match floatWord? (String.ofList (body.map Char.toLower)) with
  | some x => some (if negative then -x else x)
  | none => unsignedFloat? negative body

end JudgedLint.Decimal
