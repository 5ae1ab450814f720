import JudgedLint.Decimal.Fixed
import JudgedLint.Decimal.Shortest

/-! Numbers with a given count of digits: behind the first digit and with an exponent, or in
general, where the exponent is written only if it is small or large.

As everywhere the exact binary value is rounded, and a true half goes to the even neighbour. -/
namespace JudgedLint.Decimal

/-- The digits of `num / den` with `places` digits behind the first one, and the power of ten at
which the first one stands. -/
def leadingDigits (places num den : Nat) : List Char × Int :=
  if num == 0 then (List.replicate (places + 1) '0', 0)
  else
    let power := leadingPower num den
    let shift := (places : Int) - power
    let (n, d) :=
      if 0 ≤ shift then (num * tenTo shift.toNat, den) else (num, den * tenTo (-shift).toNat)
    let digits := (toString (roundHalfEven n d)).toList
    (digits.take (places + 1), if digits.length == places + 2 then power + 1 else power)

/-- A point behind the first `whole` digits. Without digits behind it the point is left out, unless
it is to be kept. -/
def pointed (keepPoint : Bool) (whole : Nat) (digits : List Char) : List Char :=
  let behind := digits.drop whole
  digits.take whole ++ if behind.isEmpty && !keepPoint then [] else '.' :: behind

def exponential (keepPoint : Bool) (places num den : Nat) : List Char :=
  let (digits, power) := leadingDigits places num den
  pointed keepPoint 1 digits ++ 'e' :: exponentText power

/-- The absolute value with `count` digits in all, trailing zeros left out unless the point is kept.
Without exponent from `10 ^ -4` up to below `10 ^ count`. -/
def general (keepPoint : Bool) (count num den : Nat) : List Char :=
  let count := max count 1
  let (digits, power) := leadingDigits (count - 1) num den
  let trim (cs : List Char) : List Char :=
    if keepPoint then cs
    else
      let cs := (cs.reverse.dropWhile (· == '0')).reverse
      if cs.getLast? == some '.' then cs.dropLast else cs
  if power < -4 || (count : Int) ≤ power then
    trim (pointed true 1 digits) ++ 'e' :: exponentText power
  else if power < 0 then
    trim (pointed true 1 (List.replicate (-power).toNat '0' ++ digits))
  else trim (pointed true (power.toNat + 1) digits)

end JudgedLint.Decimal
