import JudgedLint.Decimal.Binary

/-! The fewest decimal digits that read back as the same float, and the texts built on them. -/
namespace JudgedLint.Decimal

/-- Digits `digits` and the power of ten `power` of the last one. -/
structure Scientific where
  digits : Nat
  power : Int
  deriving DecidableEq, Repr

/-- The reals that a reader rounds to the float `mant · 2 ^ exp`, as numerators over `den`; the
ends belong to it when `closed`. -/
structure Neighbourhood where
  low : Nat
  value : Nat
  high : Nat
  den : Nat
  closed : Bool

/-- Half way to either neighbour; the lower neighbour of a power of two is twice as near. -/
def Neighbourhood.ofBinary (mant : Nat) (exp : Int) : Neighbourhood :=
  let (num, den) := ratio mant (exp - 2)
  let unit := num / mant
  let lowGap := if mant == hiddenBit && exp != -1074 then unit else 2 * unit
  -- the quarter of the last place is a whole number of units over `den`
  ⟨4 * num - lowGap, 4 * num, 4 * num + 2 * unit, den, mant % 2 == 0⟩

def Neighbourhood.holds (n : Neighbourhood) (digits : Nat) (power : Int) : Bool :=
  let (x, scale) := if 0 ≤ power then (digits * tenTo power.toNat * n.den, 1)
    else (digits * n.den, tenTo (-power).toNat)
  let low := n.low * scale
  let high := n.high * scale
  if n.closed then low ≤ x && x ≤ high else low < x && x < high

/-- `value / den` as a multiple of `10 ^ power`, rounded down, with what is left over a common
denominator. -/
def Neighbourhood.onGrid (n : Neighbourhood) (power : Int) : Nat × Nat × Nat :=
  let (num, den) := if 0 ≤ power then (n.value, n.den * tenTo power.toNat)
    else (n.value * tenTo (-power).toNat, n.den)
  (num / den, num % den, den)

/-- The nearest point of the grid `10 ^ power` inside the neighbourhood; a tie goes to even. -/
def Neighbourhood.pick? (n : Neighbourhood) (power : Int) : Option Nat :=
  let (low, rest, den) := n.onGrid power
  let lowIn := n.holds low power
  let highIn := n.holds (low + 1) power
  if lowIn && highIn then
    if 2 * rest < den then some low
    else if den < 2 * rest then some (low + 1)
    else some (if low % 2 == 0 then low else low + 1)
  else if lowIn then some low
  else if highIn then some (low + 1)
  else none

/-- The place of the leading digit: the greatest `k` with `10 ^ k ≤ num / den`. -/
def leadingPower (num den : Nat) : Int :=
  if den ≤ num then ((toString (num / den)).length : Int) - 1
  else
    -- the number of zeros behind the point is found from the digits of the inverse
    let inverse := (den + num - 1) / num
    let size := ((toString inverse).length : Int)
    if num * tenTo (size - 1).toNat ≥ den then -(size - 1) else -size

/-- Tries one digit, two, … until some decimal falls into the neighbourhood. -/
def Neighbourhood.shortest (n : Neighbourhood) (lead : Int) : Nat → Nat → Scientific
  | 0, used => ⟨(n.onGrid (lead - used)).1, lead - used⟩
  | fuel + 1, used =>
    match n.pick? (lead - used) with
    | some d => ⟨d, lead - used⟩
    | none => n.shortest lead fuel (used + 1)

def dropZeros : Nat → Nat → Int → Scientific
  | 0, d, p => ⟨d, p⟩
  | fuel + 1, d, p => if d != 0 && d % 10 == 0 then dropZeros fuel (d / 10) (p + 1) else ⟨d, p⟩

/-- The shortest decimal of a positive finite float. -/
def shortest (mant : Nat) (exp : Int) : Scientific :=
  let (num, den) := ratio mant exp
  let n := Neighbourhood.ofBinary mant exp
  let s := n.shortest (leadingPower num den) 17 0
  dropZeros 20 s.digits s.power

/-- Digits with a point `point` places from their start; zeros fill up on either side. -/
def placePoint (digits : List Char) (point : Int) : List Char :=
  if point ≤ 0 then
    '0' :: '.' :: List.replicate (-point).toNat '0' ++ digits
  else if digits.length ≤ point.toNat then
    digits ++ List.replicate (point.toNat - digits.length) '0' ++ ['.', '0']
  else digits.take point.toNat ++ '.' :: digits.drop point.toNat

/-- Decimal exponent: a sign and at least two digits. -/
def exponentText (e : Int) : List Char :=
  let digits := (toString e.natAbs).toList
  let digits := if digits.length < 2 then '0' :: digits else digits
  (if e < 0 then '-' else '+') :: digits

/-- Shortest digits; positional from `10 ^ -4` up to below `10 ^ 16`, else with an exponent. -/
def floatText (x : Float) : String :=
  match Binary.ofFloat x with
  | .nan => "nan"
  | .infinite negative => if negative then "-inf" else "inf"
  | .finite negative mant exp =>
    let sign := if negative then ['-'] else []
    if mant == 0 then String.ofList (sign ++ ['0', '.', '0'])
    else
      let s := shortest mant exp
      let digits := (toString s.digits).toList
      let point := s.power + digits.length
      let body :=
        if -4 < point && point ≤ 16 then placePoint digits point
        else
          match digits with
          | [d] => d :: 'e' :: exponentText (point - 1)
          | d :: rest => d :: '.' :: rest ++ 'e' :: exponentText (point - 1)
          | [] => []
      String.ofList (sign ++ body)

end JudgedLint.Decimal
