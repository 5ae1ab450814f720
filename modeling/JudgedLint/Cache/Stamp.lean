import JudgedLint.Form.Reader

/-! Timestamps of cache entries: reading them from texts and numbers.

A text holds a date, and behind a separator a time of day with or without seconds, fraction and
zone. A number counts seconds since the start of 1970, or milliseconds if it is large. -/
namespace JudgedLint.Cache

open Calendar (Date Moment)
open Form (Checked)

def digit2? (cs : List Char) : Option (Nat × List Char) :=
  match cs with
  | a :: b :: rest =>
    if a.isDigit && b.isDigit then some (10 * (a.toNat - 48) + (b.toNat - 48), rest) else none
  | _ => none

def dateText? (cs : List Char) : Option (Date × List Char) := do
  let (century, rest) ← digit2? cs
  let (year, rest) ← digit2? rest
  match rest with
  | '-' :: rest =>
    let (month, rest) ← digit2? rest
    match rest with
    | '-' :: rest =>
      let (day, rest) ← digit2? rest
      let d : Date := ⟨100 * century + year, month, day⟩
      if d.isValid then return (d, rest) else none
    | _ => none
  | _ => none

/-- The distance from universal time at the end of a text, in seconds. -/
def zone? (cs : List Char) : Option (Option Int) :=
  match cs with
  | [] => some none
  | ['Z'] => some (some 0)
  | ['z'] => some (some 0)
  | sign :: rest =>
    if sign == '+' || sign == '-' || sign == '−' then do
      let (hours, rest) ← digit2? rest
      let rest := if rest.head? == some ':' then rest.drop 1 else rest
      let (minutes, rest) ← digit2? rest
      if !rest.isEmpty || 60 ≤ minutes then none
      else
        let seconds : Int := (hours * 3600 + minutes * 60 : Nat)
        if 86400 ≤ seconds then none else some (some (if sign == '+' then seconds else -seconds))
    else none

def seconds? (cs : List Char) : Option (Nat × Nat × List Char) :=
  match cs with
  | ':' :: rest => do
    let (second, rest) ← digit2? rest
    match rest with
    | c :: after =>
      if c == '.' || c == ',' then
        let digits := after.takeWhile Char.isDigit
        if digits.isEmpty then none
        else
          let six := digits.take 6
          let micro ← Text.decimalNumber? (six ++ List.replicate (6 - six.length) '0')
          return (second, micro, after.dropWhile Char.isDigit)
      else return (second, 0, rest)
    | [] => return (second, 0, [])
  | _ => some (0, 0, cs)

def momentOfText? (cs : List Char) : Option Moment := do
  let (date, rest) ← dateText? cs
  match rest with
  | [] => return ⟨date, 0, 0, 0, 0, none⟩
  | sep :: rest =>
    if ! ['T', 't', ' ', '_'].contains sep then none
    else
      let (hour, rest) ← digit2? rest
      match rest with
      | ':' :: rest =>
        let (minute, rest) ← digit2? rest
        let (second, micro, rest) ← seconds? rest
        let offset ← zone? rest
        let m : Moment := ⟨date, hour, minute, second, micro, offset⟩
        if m.hasValidTime then return m else none
      | _ => none

/-- Beyond this many a number counts milliseconds. -/
def millisecondBound : Nat := 20000000000

/-- The first second of the year 1600 and the last one of the year 9999. -/
def earliestSecond : Int := -11676096000
def latestSecond : Int := 253402300799

def momentOfCount? (n : Int) (micro : Nat) : Option Moment :=
  let (seconds, more) : Int × Nat :=
    if n.natAbs ≤ millisecondBound then (n, 0)
    else (n.fdiv 1000, ((n - 1000 * n.fdiv 1000) * 1000).toNat)
  let total := micro + more
  let seconds := seconds + (total / 1000000 : Nat)
  if seconds < earliestSecond || latestSecond < seconds then none
  else some (Moment.ofUnix seconds (total % 1000000))

/-- The nearest whole count of microseconds to a part of a second, a half counted upwards. -/
def microsOfPart (part : Float) : Nat :=
  ((Decimal.truncate? (part * 1000000.0).round).getD 0).toNat

/-- The moment of a number with a fraction. The fraction is added to the second below, even if the
number is negative. -/
def momentOfFloat? (x : Float) : Option Moment := do
  let whole := if x < 0.0 then x.ceil else x.floor
  momentOfCount? (← Decimal.truncate? x.floor) (microsOfPart (x - whole).abs)

def withPlaces (whole : Nat) (places : List Nat) : Float :=
  (places.foldl (fun acc (d : Nat) => (acc.1 + Decimal.floatOfInt d / acc.2, acc.2 * 10.0))
    (Decimal.floatOfInt whole, 10.0)).1

/-- The moment of a numeral with a point. One that counts milliseconds is brought to seconds before
its fraction is taken; the seconds then count as any whole number does. -/
def momentOfPlaces? (negative : Bool) (whole : Nat) (places : List Nat) : Option Moment := do
  let x := withPlaces whole places
  let x := if negative then -x else x
  let x := if x.abs > Decimal.floatOfInt millisecondBound then x / 1000.0 else x
  momentOfCount? (← Decimal.truncate? x.floor) (microsOfPart (x - x.floor))

def momentOfNumeral? (cs : List Char) : Option Moment := do
  let (negative, body) :=
    match cs with
    | '-' :: rest => (true, rest)
    | '+' :: rest => (false, rest)
    | _ => (false, cs)
  let whole ← Text.decimalNumber? (body.takeWhile Char.isDigit)
  match body.dropWhile Char.isDigit with
  | [] => momentOfCount? (if negative then -(whole : Int) else whole) 0
  | '.' :: places => momentOfPlaces? negative whole (← places.mapM Text.decimalDigit?)
  | _ => none

def momentOfString? (s : String) : Option Moment :=
  (momentOfText? s.toList).orElse fun _ => momentOfNumeral? s.toList

def stampReader : Form.Reader Moment := fun d =>
  let found : Option Moment :=
    match d.bare with
    | .str s => momentOfString? s
    | .int n => momentOfCount? n 0
    | .float x => momentOfFloat? x
    | .moment m => some m
    | .date day => some ⟨day, 0, 0, 0, 0, none⟩
    | _ => none
  match found with
  | some m => .ok m
  | none => Form.fail .notMoment

end JudgedLint.Cache
