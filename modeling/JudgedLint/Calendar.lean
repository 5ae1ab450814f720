import JudgedLint.Decimal.Fixed

/-! Dates and moments of the Gregorian calendar. -/
namespace JudgedLint.Calendar

structure Date where
  year : Nat
  month : Nat
  day : Nat
  deriving DecidableEq, Repr, Inhabited

def isLeap (year : Nat) : Bool := year % 4 == 0 && (year % 100 != 0 || year % 400 == 0)

def daysInMonth (year month : Nat) : Nat :=
  if month == 2 then (if isLeap year then 29 else 28)
  else if [4, 6, 9, 11].contains month then 30
  else 31

def Date.isValid (d : Date) : Bool :=
  1 ≤ d.year && d.year ≤ 9999 && 1 ≤ d.month && d.month ≤ 12 && 1 ≤ d.day &&
    d.day ≤ daysInMonth d.year d.month

/-- A date with a time of day; `offset` is the distance of local time from universal time in
seconds. -/
structure Moment where
  date : Date
  hour : Nat
  minute : Nat
  second : Nat
  micro : Nat
  offset : Option Int
  deriving DecidableEq, Repr, Inhabited

def Moment.hasValidTime (m : Moment) : Bool :=
  m.hour ≤ 23 && m.minute ≤ 59 && m.second ≤ 59 && m.micro < 1000000

/-- Days from the first of March of year 0 to a date. -/
def Date.dayNumber (d : Date) : Int :=
  let y : Int := if d.month ≤ 2 then (d.year : Int) - 1 else d.year
  let m : Int := if d.month ≤ 2 then (d.month : Int) + 9 else (d.month : Int) - 3
  365 * y + y.fdiv 4 - y.fdiv 100 + y.fdiv 400 + (153 * m + 2).fdiv 5 + d.day - 1

def Date.ofDayNumber (n : Int) : Date :=
  let era := n.fdiv 146097
  let doe := n - era * 146097
  let yoe := (doe - doe.fdiv 1460 + doe.fdiv 36524 - doe.fdiv 146096).fdiv 365
  let doy := doe - (365 * yoe + yoe.fdiv 4 - yoe.fdiv 100)
  let mp := (5 * doy + 2).fdiv 153
  let day := doy - (153 * mp + 2).fdiv 5 + 1
  let month := if mp < 10 then mp + 3 else mp - 9
  let year := yoe + era * 400 + (if month ≤ 2 then 1 else 0)
  ⟨year.toNat, month.toNat, day.toNat⟩

def unixDay : Int := (Date.mk 1970 1 1).dayNumber

def Moment.ofUnix (seconds : Int) (micro : Nat) : Moment :=
  let days := seconds.fdiv 86400
  let left := (seconds - days * 86400).toNat
  ⟨Date.ofDayNumber (unixDay + days), left / 3600, left / 60 % 60, left % 60, micro, some 0⟩

open Decimal (padded)

def Date.text (d : Date) : String :=
  s!"{padded 4 d.year}-{padded 2 d.month}-{padded 2 d.day}"

def Moment.timeText (m : Moment) : String :=
  let base := s!"{padded 2 m.hour}:{padded 2 m.minute}:{padded 2 m.second}"
  if m.micro == 0 then base else s!"{base}.{padded 6 m.micro}"

/-- The distance from universal time as sign, hours and minutes, with seconds if there are any. -/
def offsetText (offset : Int) : String :=
  let n := offset.natAbs
  let sign := if offset < 0 then "-" else "+"
  let base := s!"{sign}{padded 2 (n / 3600)}:{padded 2 (n / 60 % 60)}"
  if n % 60 == 0 then base else s!"{base}:{padded 2 (n % 60)}"

def Moment.text (sep : String) (m : Moment) : String :=
  let zone := match m.offset with
    | none => ""
    | some o => offsetText o
  m.date.text ++ sep ++ m.timeText ++ zone

/-- The form in stored documents: universal time is the letter `Z`. -/
def Moment.stampText (m : Moment) : String :=
  let zone := match m.offset with
    | none => ""
    | some o => if o == 0 then "Z" else offsetText o
  m.date.text ++ "T" ++ m.timeText ++ zone

end JudgedLint.Calendar
