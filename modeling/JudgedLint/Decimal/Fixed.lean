import JudgedLint.Decimal.Binary

/-! Numbers with a fixed count of decimal places.

The exact binary value is rounded, so a decimal half falls to the side on which the float lies,
and a true half goes to the even neighbour. -/
namespace JudgedLint.Decimal

def padded (width n : Nat) : String :=
  let digits := toString n
  String.ofList (List.replicate (width - digits.length) '0') ++ digits

def fixedRatio (places num den : Nat) : String :=
  let scaled := roundHalfEven (num * tenTo places) den
  let whole := scaled / tenTo places
  if places == 0 then toString whole
  else toString whole ++ "." ++ padded places (scaled % tenTo places)

def fixed (places : Nat) (x : Float) : String :=
  match Binary.ofFloat x with
  | .nan => "nan"
  | .infinite negative => if negative then "-inf" else "inf"
  | .finite negative mant exp =>
    let (num, den) := ratio mant exp
    (if negative then "-" else "") ++ fixedRatio places num den

end JudgedLint.Decimal
