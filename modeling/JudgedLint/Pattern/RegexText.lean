import JudgedLint.Pattern.Regex

/-! Regular expressions read from their written form.

The form has characters, escaped characters, the point, classes in square brackets, groups that
start with `(?:`, bars between alternatives and the star. A class holds at least one member, so a
closing bracket directly behind the opening one is a member. -/
namespace JudgedLint.Pattern

inductive RegexError where
  | unterminatedClass
  | badRange
  | badEscape
  | unbalancedGroup
  | nothingToRepeat
  deriving DecidableEq, Repr

/-- One member of a class: the character itself, or the one behind a backslash. -/
def classChar (c : Char) (rest : List Char) : Except RegexError (Char × List Char) :=
  if c == '\\' then
    match rest with
    | [] => .error .unterminatedClass
    | e :: rest => if e.isAlphanum then .error .badEscape else .ok (e, rest)
  else .ok (c, rest)

/-- The members of a class up to its closing bracket; `first` while none has been read. -/
def classRanges : Nat → Bool → List Char → Except RegexError (List (Char × Char) × List Char)
  | 0, _, _ => .error .unterminatedClass
  | _, _, [] => .error .unterminatedClass
  | fuel + 1, first, c :: rest =>
    if c == ']' && !first then .ok ([], rest)
    else do
      let (low, rest) ← classChar c rest
      match rest with
      | '-' :: [] => throw .unterminatedClass
      | '-' :: ']' :: rest => return ([(low, low), ('-', '-')], rest)
      | '-' :: d :: rest =>
        let (high, rest) ← classChar d rest
        if high < low then throw .badRange
        let (ranges, rest) ← classRanges fuel false rest
        return ((low, high) :: ranges, rest)
      | _ =>
        let (ranges, rest) ← classRanges fuel false rest
        return ((low, low) :: ranges, rest)

/-- A class; `cs` is what stands behind the opening bracket. -/
def classText (cs : List Char) : Except RegexError (CharClass × List Char) := do
  let (negated, body) :=
    match cs with
    | '^' :: rest => (true, rest)
    | _ => (false, cs)
  let (ranges, rest) ← classRanges (body.length + 1) true body
  return (⟨negated, ranges⟩, rest)

def starred (r : Regex) : List Char → Regex × List Char
  | '*' :: rest => (.star r, rest)
  | rest => (r, rest)

mutual
/-- Alternatives up to a closing parenthesis or the end. -/
def alternatives : Nat → List Char → Except RegexError (Regex × List Char)
  | 0, _ => .error .unbalancedGroup
  | fuel + 1, cs => do
    let (r, rest) ← sequenceText fuel cs
    match rest with
    | '|' :: rest =>
      let (s, rest) ← alternatives fuel rest
      return (.alt r s, rest)
    | _ => return (r, rest)

/-- Expressions one after the other, up to a bar, a closing parenthesis or the end. -/
def sequenceText : Nat → List Char → Except RegexError (Regex × List Char)
  | 0, _ => .error .unbalancedGroup
  | _, [] => .ok (.empty, [])
  | fuel + 1, c :: rest =>
    if c == '|' || c == ')' then .ok (.empty, c :: rest)
    else do
      let (r, rest) ← atomText fuel c rest
      let (r, rest) := starred r rest
      let (s, rest) ← sequenceText fuel rest
      return (.seq r s, rest)

def atomText : Nat → Char → List Char → Except RegexError (Regex × List Char)
  | 0, _, _ => .error .unbalancedGroup
  | fuel + 1, c, rest =>
    if c == '[' then do
      let (k, rest) ← classText rest
      return (.oneOf k, rest)
    else if c == '.' then .ok (.any, rest)
    else if c == '*' then .error .nothingToRepeat
    else if c == '\\' then
      match rest with
      | [] => .error .badEscape
      | e :: rest => .ok (.char e, rest)
    else if c == '(' then do
      let (r, rest) ← alternatives fuel (rest.drop 2)
      match rest with
      | ')' :: rest => return (r, rest)
      | _ => throw .unbalancedGroup
    else .ok (.char c, rest)
end

def Regex.ofText (cs : List Char) : Except RegexError Regex := do
  let (r, rest) ← alternatives (3 * cs.length + 3) cs
  if rest.isEmpty then return r else throw .unbalancedGroup

end JudgedLint.Pattern
