import JudgedLint.Decimal.Reading
import JudgedLint.Decimal.Significant
import JudgedLint.Json.Basic
import JudgedLint.Text.Quoted

/-! Message templates: a percent sign, flags, width, precision and a letter stand for an
argument. -/
namespace JudgedLint.Log

inductive TemplateFault where
  | tooFew
  | tooMany
  | incomplete
  | unknownLetter (letter : Char) (index : Nat)
  | notReal (letter : Char) (type : String)
  | notInteger (letter : Char) (type : String)
  | notFloat (type : String)
  | notCharacter
  | noSuchCharacter
  | noMapping
  | openKey
  | missingKey (key : String)
  | starNotInteger
  | starTooLarge (isWidth : Bool)
  | tooLarge (isWidth : Bool)
  | noFloat
  /-- A float that is no number, or an infinite one, for a whole number. -/
  | noWhole (isNaN : Bool)
  deriving DecidableEq, Repr

def TemplateFault.kind : TemplateFault → String
  | .incomplete | .unknownLetter _ _ | .openKey | .tooLarge _ | .noWhole true => "ValueError"
  | .noSuchCharacter | .starTooLarge _ | .noFloat | .noWhole false => "OverflowError"
  | .missingKey _ => "KeyError"
  | _ => "TypeError"

def TemplateFault.message : TemplateFault → String
  | .tooFew => "not enough arguments for format string"
  | .tooMany => "not all arguments converted during string formatting"
  | .incomplete => "incomplete format"
  | .unknownLetter letter index =>
    let code := Text.codeOf letter
    let digits := Nat.toDigits 16 code
    let shown := if 31 ≤ code && code ≤ 126 then letter else '?'
    "unsupported format character '" ++ String.singleton shown ++ "' (0x" ++
      String.ofList digits ++ s!") at index {index}"
  | .notReal letter type => s!"%{letter} format: a real number is required, not {type}"
  | .notInteger letter type => s!"%{letter} format: an integer is required, not {type}"
  | .notFloat type => s!"must be real number, not {type}"
  | .notCharacter => "%c requires int or char"
  | .noSuchCharacter => "%c arg not in range(0x110000)"
  | .noMapping => "format requires a mapping"
  | .openKey => "incomplete format key"
  | .missingKey key => Text.quoted key
  | .starNotInteger => "* wants int"
  | .starTooLarge isWidth =>
    "Python int too large to convert to C " ++ (if isWidth then "ssize_t" else "int")
  | .tooLarge isWidth => if isWidth then "width too big" else "precision too big"
  | .noFloat => "int too large to convert to float"
  | .noWhole isNaN =>
    "cannot convert float " ++ (if isNaN then "NaN" else "infinity") ++ " to integer"

def typeName : Json → String
  | .null => "NoneType"
  | .bool _ => "bool"
  | .int _ => "int"
  | .float _ => "float"
  | .str _ => "str"
  | .arr _ => "list"
  | .obj _ => "dict"

mutual
def shown : Json → String
  | .null => "None"
  | .bool b => if b then "True" else "False"
  | .int n => toString n
  | .float x => Decimal.floatText x
  | .str s => Text.quoted s
  | .arr items => "[" ++ ", ".intercalate (shownItems items) ++ "]"
  | .obj ms => "\x7b" ++ ", ".intercalate (shownMembers ms) ++ "\x7d"

def shownItems : List Json → List String
  | [] => []
  | j :: rest => shown j :: shownItems rest

def shownMembers : List (String × Json) → List String
  | [] => []
  | (k, j) :: rest => (Text.quoted k ++ ": " ++ shown j) :: shownMembers rest
end

def plainText : Json → String
  | .str s => s
  | j => shown j

structure Slot where
  left : Bool := false
  plus : Bool := false
  blank : Bool := false
  zeros : Bool := false
  alternate : Bool := false
  width : Nat := 0
  precision : Option Nat := none

def Slot.pad (slot : Slot) (s : List Char) : List Char :=
  let gap := List.replicate (slot.width - s.length) ' '
  if slot.left then s ++ gap else gap ++ s

/-- A number behind its sign; zeros may fill up between the two. -/
def Slot.number (slot : Slot) (negative : Bool) (lead body : List Char) : List Char :=
  let sign : List Char :=
    if negative then ['-'] else if slot.plus then ['+'] else if slot.blank then [' '] else []
  let front := sign ++ lead
  if slot.zeros && !slot.left then
    front ++ List.replicate (slot.width - front.length - body.length) '0' ++ body
  else slot.pad (front ++ body)

def wholeNumber? : Json → Option Int
  | .int n => some n
  | .bool b => some (if b then 1 else 0)
  | _ => none

/-- A whole number in a base, with at least as many digits as the precision asks for. -/
def Slot.whole (slot : Slot) (base : Nat) (lead : String) (n : Int) : List Char :=
  let digits := Nat.toDigits base n.natAbs
  let digits := List.replicate (slot.precision.getD 0 - digits.length) '0' ++ digits
  slot.number (n < 0) (if slot.alternate then lead.toList else []) digits

def floatOf (j : Json) : Except TemplateFault Float :=
  match j, wholeNumber? j with
  | .float x, _ => .ok x
  | _, some n =>
    let x := Decimal.floatOfInt n
    if x.isInf then .error .noFloat else .ok x
  | _, none => .error (.notFloat (typeName j))

def Slot.real (slot : Slot) (letter : Char) (x : Float) : List Char :=
  let places := slot.precision.getD 6
  match Decimal.Binary.ofFloat x with
  | .nan => slot.number false [] "nan".toList
  | .infinite negative => slot.number negative [] "inf".toList
  | .finite negative mant exp =>
    let (num, den) := Decimal.ratio mant exp
    let body :=
      if letter == 'e' then Decimal.exponential slot.alternate places num den
      else if letter == 'g' then Decimal.general slot.alternate places num den
      else
        let cs := (Decimal.fixedRatio places num den).toList
        if slot.alternate && places == 0 then cs ++ ['.'] else cs
    slot.number negative [] body

def Slot.fill (slot : Slot) (letter : Char) (index : Nat) (arg : Json) :
    Except TemplateFault (List Char) :=
  let text (s : String) : List Char :=
    let cs := s.toList
    slot.pad (match slot.precision with
      | some n => cs.take n
      | none => cs)
  if letter == 's' then .ok (text (plainText arg))
  else if letter == 'r' then .ok (text (shown arg))
  else if letter == 'a' then .ok (text (Text.asciiOnly (shown arg)))
  else if letter == 'd' || letter == 'i' || letter == 'u' then
    match wholeNumber? arg, arg with
    | some n, _ => .ok (slot.whole 10 "" n)
    | none, .float x =>
      match Decimal.truncate? x with
      | some n => .ok (slot.whole 10 "" n)
      | none => .error (.noWhole x.isNaN)
    | none, _ => .error (.notReal letter (typeName arg))
  else if letter == 'x' || letter == 'X' || letter == 'o' then
    match wholeNumber? arg with
    | none => .error (.notInteger letter (typeName arg))
    | some n =>
      if letter == 'o' then .ok (slot.whole 8 "0o" n)
      else
        let cs := slot.whole 16 "0x" n
        .ok (if letter == 'X' then cs.map Char.toUpper else cs)
  else if "eEfFgG".toList.contains letter then do
    let cs := slot.real letter.toLower (← floatOf arg)
    return if letter.isUpper then cs.map Char.toUpper else cs
  else if letter == 'c' then
    match arg, wholeNumber? arg with
    | .str s, _ => if s.length == 1 then .ok (slot.pad s.toList) else .error .notCharacter
    | _, some n =>
      if n < 0 || 0x110000 ≤ n then .error .noSuchCharacter
      else .ok (slot.pad [Text.charOfCode n.toNat])
    | _, none => .error .notCharacter
  else .error (.unknownLetter letter index)

def flags : Slot → List Char → Slot × List Char
  | slot, c :: rest =>
    if c == '-' then flags { slot with left := true } rest
    else if c == '+' then flags { slot with plus := true } rest
    else if c == ' ' then flags { slot with blank := true } rest
    else if c == '#' then flags { slot with alternate := true } rest
    else if c == '0' then flags { slot with zeros := true } rest
    else (slot, c :: rest)
  | slot, [] => (slot, [])

/-- Counts below it can be written out; a precision has a smaller bound than a width. -/
def countBound (isWidth : Bool) : Int := if isWidth then 9223372036854775808 else 2147483648

/-- A count in digits, or the next argument behind a star. -/
def count (isWidth : Bool) (cs : List Char) (args : List Json) :
    Except TemplateFault (Option Int × List Char × List Json) :=
  let bound := countBound isWidth
  match cs with
  | '*' :: rest =>
    match args with
    | [] => .error .tooFew
    | arg :: args =>
      match wholeNumber? arg with
      | some n =>
        if n < -bound || bound ≤ n then .error (.starTooLarge isWidth) else .ok (some n, rest, args)
      | none => .error .starNotInteger
  | _ =>
    let digits := cs.takeWhile Char.isDigit
    if digits.isEmpty then .ok (none, cs, args)
    else
      let n : Nat := digits.foldl (fun n c => 10 * n + (c.toNat - 48)) 0
      if bound ≤ n then .error (.tooLarge isWidth)
      else .ok (some (n : Int), cs.drop digits.length, args)

def withWidth (slot : Slot) : Option Int → Slot
  | none => slot
  | some n => { slot with width := n.natAbs, left := slot.left || n < 0 }

/-- A key in parentheses, of which it may hold some, and what is behind it. -/
def keyFrom : Nat → List Char → Option (List Char × List Char)
  | _, [] => none
  | depth, c :: rest =>
    if c == ')' && depth == 0 then some ([], rest)
    else
      let depth := if c == '(' then depth + 1 else if c == ')' then depth - 1 else depth
      (keyFrom depth rest).map fun p => (c :: p.1, p.2)

/-- The argument that a key names takes the place of all arguments. -/
def keyed (mapping : Option (List (String × Json))) (cs : List Char) (args : List Json) :
    Except TemplateFault (List Char × List Json) :=
  match cs, mapping with
  | '(' :: _, none => .error .noMapping
  | '(' :: rest, some ms =>
    match keyFrom 0 rest with
    | none => .error .openKey
    | some (key, rest) =>
      match ms.lookup (String.ofList key) with
      | none => .error (.missingKey (String.ofList key))
      | some arg => .ok (rest, [arg])
  | _, _ => .ok (cs, args)

structure Arguments where
  mapping : Option (List (String × Json))
  items : List Json

/-- A single object gives its members by key; else each argument stands for itself. -/
def Arguments.ofList : List Json → Arguments
  | [.obj (m :: ms)] => ⟨some (m :: ms), [.obj (m :: ms)]⟩
  | args => ⟨none, args⟩

/-- The template from a place on, with the arguments that are left. `size` is the length of the
whole template. -/
def fillFrom (size : Nat) (mapping : Option (List (String × Json))) :
    Nat → List Char → List Json → Except TemplateFault (List Char)
  | 0, _, _ => .error .incomplete
  | _, [], args => if args.isEmpty || mapping.isSome then .ok [] else .error .tooMany
  | fuel + 1, c :: rest, args =>
    if c != '%' then (fillFrom size mapping fuel rest args).map (c :: ·)
    else if rest.head? == some '%' then
      (fillFrom size mapping fuel (rest.drop 1) args).map ('%' :: ·)
    else do
      let (rest, args) ← keyed mapping rest args
      let (slot, rest) := flags {} rest
      let (width, rest, args) ← count true rest args
      let slot := withWidth slot width
      let (slot, rest, args) ← (match rest with
        | '.' :: rest => do
          let (precision, rest, args) ← count false rest args
          return ({ slot with precision := some ((precision.getD 0).toNat) }, rest, args)
        | _ => return (slot, rest, args) :
          Except TemplateFault (Slot × List Char × List Json))
      let rest :=
        match rest with
        | l :: more => if l == 'h' || l == 'l' || l == 'L' then more else rest
        | [] => rest
      match rest, args with
      | [], _ => throw .incomplete
      | _, [] => throw .tooFew
      | letter :: after, arg :: args =>
        let cs ← slot.fill letter (size - rest.length) arg
        return cs ++ (← fillFrom size mapping fuel after args)

/-- The message of a template. Without arguments the template is the message. -/
def fillTemplate (template : String) (args : List Json) : Except TemplateFault String :=
  if args.isEmpty then .ok template
  else
    let cs := template.toList
    let given := Arguments.ofList args
    (fillFrom cs.length given.mapping (cs.length + 1) cs given.items).map String.ofList

end JudgedLint.Log
