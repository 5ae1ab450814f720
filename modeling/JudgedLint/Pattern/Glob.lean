import JudgedLint.Pattern.RegexText
import JudgedLint.Text.Search

/-! Globs: patterns for paths.

`**` between slashes stands for any number of whole segments, `*` for a run of characters inside a
segment, `?` for one of them, brackets for a class, and braces for alternatives. A glob is turned
into a regular expression piece by piece. -/
namespace JudgedLint.Pattern

def dropDotSlash : List Char → List Char
  | '.' :: '/' :: rest => dropDotSlash rest
  | cs => cs

def normalizeChars (cs : List Char) : List Char :=
  dropDotSlash (cs.map fun c => if c == '\\' then '/' else c)

def normalizePath (path : String) : String := String.ofList (normalizeChars path.toList)

inductive Piece where
  /-- Any number of whole segments, each with its slash. -/
  | segments
  /-- Whatever is left of the path, without line feeds. -/
  | rest
  /-- A run of characters without slash. -/
  | run
  /-- One character that is no slash. -/
  | one
  | oneOf (negated : Bool) (body : List Char)
  | opening
  | bar
  | closing
  | char (c : Char)
  deriving DecidableEq, Repr

/-- The body of a class and what stands behind it. A closing bracket directly behind the sign of
negation is not skipped, so a body may be empty. -/
def classBody? (cs : List Char) : Option (Bool × List Char × List Char) :=
  let negated := match cs with
    | c :: _ => c == '!' || c == '^'
    | [] => false
  let inner := if negated then cs.drop 1 else cs
  match inner.span (· != ']') with
  | (_, []) => none
  | (body, _ :: after) => some (negated, body, after)

/-- The pieces of a glob; `atStart` when the place lies at the start or behind a slash, `depth` the
count of open braces, which are closed at the end. -/
def piecesFrom (fuel : Nat) (atStart : Bool) (depth : Nat) (cs : List Char) : List Piece :=
  match fuel, cs with
  | 0, _ => []
  | _, [] => List.replicate depth .closing
  | fuel + 1, '*' :: '*' :: after =>
    match atStart, after with
    | true, '/' :: after => .segments :: piecesFrom fuel true depth after
    | true, [] => .rest :: piecesFrom fuel false depth []
    | _, after => .run :: piecesFrom fuel false depth after
  | fuel + 1, c :: after =>
    if c == '*' then .run :: piecesFrom fuel false depth after
    else if c == '?' then .one :: piecesFrom fuel false depth after
    else if c == '[' then
      match classBody? after with
      | none => .char c :: piecesFrom fuel false depth after
      | some (negated, body, after) => .oneOf negated body :: piecesFrom fuel false depth after
    else if c == '\x7b' then .opening :: piecesFrom fuel false (depth + 1) after
    else if c == '\x7d' && 0 < depth then .closing :: piecesFrom fuel false (depth - 1) after
    else if c == ',' && 0 < depth then .bar :: piecesFrom fuel false depth after
    else .char c :: piecesFrom fuel (c == '/') depth after

def pieces (cs : List Char) : List Piece := piecesFrom (cs.length + 1) true 0 cs

/-- Characters that mean something in the written form of a regular expression. -/
def isSpecial (c : Char) : Bool :=
  "()[]\x7b\x7d?*+-|^$\\.&~# \t\n\r".toList.contains c || c.toNat == 11 || c.toNat == 12

def escapedChar (c : Char) : List Char := if isSpecial c then ['\\', c] else [c]

def Piece.regexText : Piece → List Char
  | .segments => "(?:[^/]*/)*".toList
  | .rest => ".*".toList
  | .run => "[^/]*".toList
  | .one => "[^/]".toList
  | .oneOf negated body => '[' :: (if negated then ['^'] else []) ++ body ++ [']']
  | .opening => "(?:".toList
  | .bar => ['|']
  | .closing => [')']
  | .char c => escapedChar c

def compileGlob (pattern : String) : Except RegexError Regex :=
  Regex.ofText ((pieces (normalizeChars pattern.toList)).flatMap Piece.regexText)

def matchGlob (path pattern : String) : Except RegexError Bool := do
  let r ← compileGlob pattern
  return r.accepts (normalizeChars path.toList)

end JudgedLint.Pattern
