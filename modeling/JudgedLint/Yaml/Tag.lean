import JudgedLint.Yaml.Scalar

/-! The types of scalars and collections, and the type that a plain scalar has by its looks. -/
namespace JudgedLint.Yaml

inductive Tag where
  | null
  | bool
  | int
  | float
  | binary
  | timestamp
  | omap
  | pairs
  | set
  | str
  | seq
  | map
  | merge
  | value
  | other (name : String)
  deriving DecidableEq, Repr, Inhabited

def commonTypes : String := "tag:yaml.org,2002:"

def Tag.names : List (String × Tag) :=
  [("null", .null), ("bool", .bool), ("int", .int), ("float", .float), ("binary", .binary),
   ("timestamp", .timestamp), ("omap", .omap), ("pairs", .pairs), ("set", .set), ("str", .str),
   ("seq", .seq), ("map", .map), ("merge", .merge), ("value", .value)]

def Tag.ofName (full : String) : Tag :=
  match Tag.names.find? fun t => commonTypes ++ t.1 == full with
  | some t => t.2
  | none => .other full

def nullWords : List String := ["~", "null", "Null", "NULL", ""]

def boolWords : List (String × Bool) :=
  [("yes", true), ("no", false), ("true", true), ("false", false), ("on", true), ("off", false)]

/-- A word in lower case, in upper case, or with a capital in front. -/
def casings (w : String) : List String :=
  let up := String.ofList (w.toList.map Char.toUpper)
  let title := match w.toList with
    | c :: rest => String.ofList (c.toUpper :: rest)
    | [] => ""
  [w, title, up]

def isBoolWord (s : String) : Bool := boolWords.any fun w => (casings w.1).contains s

def dropSign (cs : List Char) : List Char :=
  match cs with
  | '+' :: rest => rest
  | '-' :: rest => rest
  | _ => cs

def isDigitOrUnderscore (c : Char) : Bool := c.isDigit || c == '_'

/-- Groups of one or two digits below sixty, each behind a colon; at least one of them. -/
def isSexagesimalTail (cs : List Char) : Bool :=
  let group (g : List Char) : Bool :=
    match g with
    | [a] => a.isDigit
    | [a, b] => '0' ≤ a && a ≤ '5' && b.isDigit
    | _ => false
  match cs with
  | ':' :: rest => ((String.ofList rest).splitOn ":").all fun g => group g.toList
  | _ => false

def isIntText (s : String) : Bool :=
  match dropSign s.toList with
  | '0' :: 'b' :: rest => !rest.isEmpty && rest.all fun c => c == '0' || c == '1' || c == '_'
  | '0' :: 'x' :: rest => !rest.isEmpty && rest.all fun c => (Text.hexValue? c).isSome || c == '_'
  | ['0'] => true
  | '0' :: rest => rest.all fun c => ('0' ≤ c && c ≤ '7') || c == '_'
  | c :: rest =>
    if c.isDigit then
      let tail := rest.dropWhile isDigitOrUnderscore
      tail.isEmpty || isSexagesimalTail tail
    else false
  | [] => false

def isExponentOrEmpty (cs : List Char) : Bool :=
  match cs with
  | [] => true
  | e :: sign :: digits =>
    (e == 'e' || e == 'E') && (sign == '+' || sign == '-') && !digits.isEmpty &&
      digits.all Char.isDigit
  | _ => false

def isFloatText (s : String) : Bool :=
  let cs := s.toList
  let body := dropSign cs
  let (whole, rest) := body.span isDigitOrUnderscore
  let startsWithDigit := (whole.head?.map Char.isDigit).getD false
  if startsWithDigit then
    match rest with
    | '.' :: after => isExponentOrEmpty (after.dropWhile isDigitOrUnderscore)
    | ':' :: _ =>
      match rest.span (· != '.') with
      | (groups, '.' :: fraction) => isSexagesimalTail groups && fraction.all isDigitOrUnderscore
      | _ => false
    | _ => false
  else
    [".inf", ".Inf", ".INF"].contains (String.ofList body) ||
      [".nan", ".NaN", ".NAN"].contains s ||
      (match cs with
       | '.' :: d :: after => d.isDigit && isExponentOrEmpty (after.dropWhile isDigitOrUnderscore)
       | _ => false)

def oneOrTwoDigits? (cs : List Char) : Option (Nat × List Char) :=
  match cs with
  | a :: b :: rest =>
    if a.isDigit then
      if b.isDigit then some ((a.toNat - 48) * 10 + (b.toNat - 48), rest)
      else some (a.toNat - 48, b :: rest)
    else none
  | [a] => if a.isDigit then some (a.toNat - 48, []) else none
  | [] => none

def twoDigits? (cs : List Char) : Option (Nat × List Char) :=
  match cs with
  | a :: b :: rest =>
    if a.isDigit && b.isDigit then some ((a.toNat - 48) * 10 + (b.toNat - 48), rest) else none
  | _ => none

def expectChar? (ch : Char) (cs : List Char) : Option (List Char) :=
  match cs with
  | c :: rest => if c == ch then some rest else none
  | [] => none

/-- The parts of a written moment. The distance from universal time is in seconds. -/
structure MomentText where
  year : Nat
  month : Nat
  day : Nat
  time : Option (Nat × Nat × Nat × List Char)
  offset : Option Int
  deriving Repr

def zoneText? (cs : List Char) : Option (Option Int) :=
  if cs.isEmpty then some none
  else
    match cs.dropWhile isSpaceOrTab with
    | ['Z'] => some (some 0)
    | sign :: rest =>
      if sign == '+' || sign == '-' then do
        let (hours, rest) ← oneOrTwoDigits? rest
        let minutes ← (match rest with
          | [] => some 0
          | ':' :: rest =>
            match twoDigits? rest with
            | some (m, []) => some m
            | _ => none
          | _ => none : Option Nat)
        let seconds : Int := (hours * 3600 + minutes * 60 : Nat)
        return some (if sign == '-' then -seconds else seconds)
      else none
    | [] => none

def momentText? (s : String) : Option MomentText := do
  let cs := s.toList
  let year ← Text.decimalNumber? (cs.take 4)
  if (cs.take 4).length != 4 then none
  let rest ← expectChar? '-' (cs.drop 4)
  let (month, rest) ← oneOrTwoDigits? rest
  let rest ← expectChar? '-' rest
  let (day, rest) ← oneOrTwoDigits? rest
  match rest with
  | [] => return ⟨year, month, day, none, none⟩
  | sep :: _ =>
    let rest ← (if sep == 'T' || sep == 't' then some (rest.drop 1)
      else if isSpaceOrTab sep then some (rest.dropWhile isSpaceOrTab)
      else none : Option (List Char))
    let (hour, rest) ← oneOrTwoDigits? rest
    let rest ← expectChar? ':' rest
    let (minute, rest) ← twoDigits? rest
    let rest ← expectChar? ':' rest
    let (second, rest) ← twoDigits? rest
    let (fraction, rest) :=
      match rest with
      | '.' :: after => (after.takeWhile Char.isDigit, after.dropWhile Char.isDigit)
      | _ => ([], rest)
    let offset ← zoneText? rest
    return ⟨year, month, day, some (hour, minute, second, fraction), offset⟩

/-- A date alone has two digits each for month and day; with a time one digit is enough. -/
def isTimestampText (s : String) : Bool :=
  match momentText? s with
  | none => false
  | some m => m.time.isSome || s.length == 10

def dropLastBreak (s : String) : String :=
  match s.toList.reverse with
  | '\n' :: rest => String.ofList rest.reverse
  | _ => s

def Tag.ofPlain (s : String) : Tag :=
  if nullWords.contains s then .null
  else if isBoolWord s then .bool
  else if isFloatText s then .float
  else if isIntText s then .int
  else if s == "<<" then .merge
  else if isTimestampText s then .timestamp
  else if s == "=" then .value
  else if ["!", "&", "*"].contains s then .other (commonTypes ++ "yaml")
  else .str

/-- The type of a scalar by its looks, however it is written: a line break at its end is no part of
them, and nothing but a line break is text. -/
def Tag.ofLooks (s : String) : Tag := if s == "\n" then .str else Tag.ofPlain (dropLastBreak s)

end JudgedLint.Yaml
