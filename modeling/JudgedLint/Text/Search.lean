/-! Finding, replacing and joining parts of a text. -/
namespace JudgedLint.Text

def occursIn (needle : List Char) : List Char → Bool
  | [] => needle.isEmpty
  | c :: rest => needle.isPrefixOf (c :: rest) || occursIn needle rest

def contains (s part : String) : Bool := occursIn part.toList s.toList

def startsWith (s start : String) : Bool := start.toList.isPrefixOf s.toList

def endsWith (s ending : String) : Bool := ending.toList.isSuffixOf s.toList

def dropFirst (n : Nat) (s : String) : String := String.ofList (s.toList.drop n)

def dropLast (n : Nat) (s : String) : String :=
  String.ofList (s.toList.take (s.toList.length - n))

def replaceChar (old new : Char) (s : String) : String :=
  String.ofList (s.toList.map fun c => if c == old then new else c)

/-- The parts between the occurrences of `sep`; always at least one. -/
def splitOnChar (sep : Char) : List Char → List (List Char)
  | [] => [[]]
  | c :: rest =>
    if c == sep then [] :: splitOnChar sep rest
    else
      match splitOnChar sep rest with
      | [] => [[c]]
      | part :: parts => (c :: part) :: parts

def split (sep : Char) (s : String) : List String :=
  (splitOnChar sep s.toList).map String.ofList

def join (sep : String) (parts : List String) : String := sep.intercalate parts

def cut? (sep : Char) (s : String) : Option (String × String) :=
  match s.toList.span (· != sep) with
  | (_, []) => none
  | (before, _ :: after) => some (String.ofList before, String.ofList after)

def cutLast? (sep : Char) (s : String) : Option (String × String) :=
  match s.toList.reverse.span (· != sep) with
  | (_, []) => none
  | (after, _ :: before) => some (String.ofList before.reverse, String.ofList after.reverse)

def bulleted (lead : String) (items : List String) : String :=
  join "\n" (items.map (lead ++ ·))

/-- Upper case of ASCII letters and of the few other letters whose upper case is ASCII text. -/
def upperAscii (s : String) : String :=
  String.ofList <| s.toList.flatMap fun c =>
    if c == 'ı' then ['I'] else if c == 'ſ' then ['S'] else if c == 'ß' then ['S', 'S']
    else if c == 'ﬀ' then ['F', 'F'] else if c == 'ﬁ' then ['F', 'I']
    else if c == 'ﬂ' then ['F', 'L'] else if c == 'ﬃ' then ['F', 'F', 'I']
    else if c == 'ﬄ' then ['F', 'F', 'L'] else if c == 'ﬅ' then ['S', 'T']
    else if c == 'ﬆ' then ['S', 'T'] else [c.toUpper]

/-- Lower case of ASCII letters and of the Kelvin sign, the one other capital whose lower case is
an ASCII letter. -/
def lowerAscii (s : String) : String :=
  String.ofList (s.toList.map fun c => if c == Char.ofNat 0x212A then 'k' else c.toLower)

end JudgedLint.Text
