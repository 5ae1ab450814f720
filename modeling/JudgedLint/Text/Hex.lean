/-! Hexadecimal and octal numerals of fixed width. -/
namespace JudgedLint.Text

def hexDigit (n : Nat) : Char :=
  if n < 10 then Char.ofNat (48 + n) else Char.ofNat (87 + n)

/-- `width` lower-case hexadecimal digits of `n`, the lowest ones. -/
def hexChars : Nat → Nat → List Char
  | 0, _ => []
  | width + 1, n => hexChars width (n / 16) ++ [hexDigit (n % 16)]

def hex (width n : Nat) : String := String.ofList (hexChars width n)

def hexValue? (c : Char) : Option Nat :=
  let n := c.toNat
  if 48 ≤ n && n ≤ 57 then some (n - 48)
  else if 97 ≤ n && n ≤ 102 then some (n - 87)
  else if 65 ≤ n && n ≤ 70 then some (n - 55)
  else none

def octalValue? (c : Char) : Option Nat :=
  if 48 ≤ c.toNat && c.toNat ≤ 55 then some (c.toNat - 48) else none

/-- The number that digits of a base write; nothing if one of them is no digit or none is there. -/
def numeral? (digit : Char → Option Nat) (base : Nat) : List Char → Option Nat
  | [] => none
  | cs => cs.foldl (fun acc c => do return (← acc) * base + (← digit c)) (some 0)

def decimalDigit? (c : Char) : Option Nat :=
  if c.isDigit then some (c.toNat - 48) else none

def hexNumber? (cs : List Char) : Option Nat := numeral? hexValue? 16 cs

def decimalNumber? (cs : List Char) : Option Nat := numeral? decimalDigit? 10 cs

def hexBytes? : List Char → Option (List UInt8)
  | [] => some []
  | [_] => none
  | a :: b :: rest => do
    let x ← hexValue? a
    let y ← hexValue? b
    return UInt8.ofNat (16 * x + y) :: (← hexBytes? rest)

def hexOfBytes (bs : List UInt8) : String :=
  String.ofList (bs.flatMap fun b => hexChars 2 b.toNat)

end JudgedLint.Text
