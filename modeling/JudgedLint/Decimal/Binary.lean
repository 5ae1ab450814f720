/-! Floating-point numbers taken apart into exact integers. -/
namespace JudgedLint.Decimal

/-- What a floating-point number denotes: a finite one is `± mant · 2 ^ exp`. -/
inductive Binary where
  | nan
  | infinite (negative : Bool)
  | finite (negative : Bool) (mant : Nat) (exp : Int)
  deriving DecidableEq, Repr

/-- The value of the bit that normal numbers do not write. -/
def hiddenBit : Nat := 4503599627370496

def twoTo (n : Nat) : Nat := Nat.pow 2 n
def tenTo (n : Nat) : Nat := Nat.pow 10 n

def Binary.ofFloat (x : Float) : Binary :=
  let bits := x.toBits.toNat
  let negative := bits / twoTo 63 == 1
  let exponent : Nat := bits / hiddenBit % 2048
  let fraction : Nat := bits % hiddenBit
  if exponent == 2047 then
    if fraction == 0 then .infinite negative else .nan
  else if exponent == 0 then .finite negative fraction (-1074)
  else .finite negative (hiddenBit + fraction) ((exponent : Int) - 1075)

/-- The quotient that `mant · 2 ^ exp` is, as numerator and positive denominator. -/
def ratio (mant : Nat) (exp : Int) : Nat × Nat :=
  if 0 ≤ exp then (mant * twoTo exp.toNat, 1) else (mant, twoTo (-exp).toNat)

/-- A quotient rounded to the nearest whole number, a half to the even neighbour. -/
def roundHalfEven (num den : Nat) : Nat :=
  let low := num / den
  let twice := 2 * (num % den)
  if twice < den then low
  else if den < twice then low + 1
  else if low % 2 == 0 then low else low + 1

def truncate? (x : Float) : Option Int :=
  match Binary.ofFloat x with
  | .finite negative mant exp =>
    let (num, den) := ratio mant exp
    let whole : Int := (num / den : Nat)
    some (if negative then -whole else whole)
  | _ => none

def isWhole (x : Float) : Bool :=
  match Binary.ofFloat x with
  | .finite _ mant exp => let (num, den) := ratio mant exp; num % den == 0
  | _ => false

end JudgedLint.Decimal
