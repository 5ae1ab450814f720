import JudgedLint.Yaml.Cursor
import JudgedLint.Text.Hex
import JudgedLint.Text.Surrogate

/-! Reading scalars: plain, quoted and block text, with line folding. -/
namespace JudgedLint.Yaml

inductive Style where
  | plain
  | single
  | double
  | literal
  | folded
  deriving DecidableEq, Repr, Inhabited

namespace Scalar

/-- Line breaks ahead in quoted text, with the blanks around them dropped. -/
def quotedBreaks : Nat → Cursor → Except Fault (List Char × Cursor)
  | 0, c => .ok ([], c)
  | fuel + 1, c =>
    if c.atSeparator then .error .malformed
    else
      let c := c.skipWhile isSpaceOrTab
      if isBreak c.peek then do
        let (brk, c) := c.lineBreak
        let (more, c) ← quotedBreaks fuel c
        return (brk ++ more, c)
      else .ok ([], c)

/-- Blanks and breaks ahead in quoted text: blanks inside a line stay, a single break becomes a
blank, and of several the first vanishes. -/
def quotedSpaces (c : Cursor) : Except Fault (List Char × Cursor) :=
  let (blanks, c) := c.spanWhile isSpaceOrTab
  if isEnd c.peek then .error .malformed
  else if isBreak c.peek then do
    let (brk, c) := c.lineBreak
    let (breaks, c) ← quotedBreaks (c.rest.length + 1) c
    if brk != ['\n'] then return (brk ++ breaks, c)
    else if breaks.isEmpty then return ([' '], c)
    else return (breaks, c)
  else .ok (blanks, c)

def escape? (c : Char) : Option Nat :=
  ([('0', 0), ('a', 7), ('b', 8), ('t', 9), ('\t', 9), ('n', 10), ('v', 11), ('f', 12), ('r', 13),
    ('e', 27), (' ', 32), ('"', 34), ('\\', 92), ('/', 47), ('N', 0x85), ('_', 0xA0),
    ('L', 0x2028), ('P', 0x2029)] : List (Char × Nat)).lookup c

def escapeWidth? (c : Char) : Option Nat :=
  if c == 'x' then some 2 else if c == 'u' then some 4 else if c == 'U' then some 8 else none

def isQuotedPlain (c : Char) : Bool :=
  !(c.toNat == 39 || c == '"' || c == '\\' || isGap c)

def quotedText (double : Bool) : Nat → Cursor → Except Fault (List Char × Cursor)
  | 0, c => .ok ([], c)
  | fuel + 1, c =>
    let (taken, c) := c.spanWhile isQuotedPlain
    let more (text : List Char) (c : Cursor) : Except Fault (List Char × Cursor) := do
      let (rest, c) ← quotedText double fuel c
      return (taken ++ text ++ rest, c)
    let ch := c.peek
    if !double && ch.toNat == 39 && (c.peekAt 1).toNat == 39 then more [ch] (c.forward 2)
    else if (double && ch.toNat == 39) || (!double && (ch == '"' || ch == '\\')) then
      more [ch] c.next
    else if double && ch == '\\' then
      let c := c.next
      let e := c.peek
      match escape? e, escapeWidth? e with
      | some code, _ => more [Char.ofNat code] c.next
      | none, some width =>
        let c := c.next
        match Text.hexNumber? (c.rest.take width), (c.rest.take width).length == width with
        | some code, true =>
          if 0x110000 ≤ code then .error (.codePoint code)
          else more [Text.charOfCode code] (c.forward width)
        | _, _ => .error .malformed
      | none, none =>
        if isBreak e then do
          let (_, c) := c.lineBreak
          let (breaks, c) ← quotedBreaks (c.rest.length + 1) c
          more breaks c
        else .error .malformed
    else .ok (taken, c)

def quotedParts (double : Bool) (quote : Char) : Nat → Cursor → Except Fault (List Char × Cursor)
  | 0, _ => .error .malformed
  | fuel + 1, c =>
    if c.peek == quote then .ok ([], c.next)
    else do
      let (spaces, c) ← quotedSpaces c
      let (text, c) ← quotedText double (c.rest.length + 1) c
      let (rest, c) ← quotedParts double quote fuel c
      return (spaces ++ text ++ rest, c)

def quoted (double : Bool) (c : Cursor) : Except Fault (List Char × Cursor) := do
  let quote := c.peek
  let c := c.next
  let (first, c) ← quotedText double (c.rest.length + 1) c
  let (rest, c) ← quotedParts double quote (c.rest.length + 2) c
  return (first ++ rest, c)

def plainStops (inFlow : Bool) (ch after : Char) : Bool :=
  isGap ch ||
    (ch == ':' && (isGap after || (inFlow && [',', '[', ']', '\x7b', '\x7d'].contains after))) ||
    (inFlow && [',', '?', '[', ']', '\x7b', '\x7d'].contains ch)

def plainLength (inFlow : Bool) : List Char → Nat
  | [] => 0
  | ch :: rest =>
    if plainStops inFlow ch (rest.headD endChar) then 0 else plainLength inFlow rest + 1

/-- Blanks and breaks behind a first break in plain text; nothing if a separator line follows. -/
def plainBreaks : Nat → Cursor → Option (List Char) × Cursor
  | 0, c => (some [], c)
  | fuel + 1, c =>
    if c.peek == ' ' then plainBreaks fuel c.next
    else if isBreak c.peek then
      let (brk, c) := c.lineBreak
      if c.atSeparator then (none, c)
      else
        match plainBreaks fuel c with
        | (some more, c) => (some (brk ++ more), c)
        | (none, c) => (none, c)
    else (some [], c)

/-- What stands for the gap behind a piece of plain text, whether it held a break, and the place
behind it. An empty gap ends the scalar. -/
def plainGap (c : Cursor) : List Char × Bool × Cursor :=
  let (blanks, c) := c.spanWhile (· == ' ')
  if isBreak c.peek then
    let (brk, c) := c.lineBreak
    if c.atSeparator then ([], true, c)
    else
      match plainBreaks (c.rest.length + 1) c with
      | (none, c) => ([], true, c)
      | (some breaks, c) =>
        if brk != ['\n'] then (brk ++ breaks, true, c)
        else if breaks.isEmpty then ([' '], true, c)
        else (breaks, true, c)
  else (blanks, false, c)

/-- Pieces of plain text with the gaps between them. `gap` stands before the next piece, `broken`
says whether the last gap held a break. -/
def plainPieces (inFlow : Bool) (indent : Int) :
    Nat → List Char → Bool → Cursor → List Char × Bool × Cursor
  | 0, _, broken, c => ([], broken, c)
  | fuel + 1, gap, broken, c =>
    if c.peek == '#' then ([], broken, c)
    else
      let n := plainLength inFlow c.rest
      if n == 0 then ([], broken, c)
      else
        let piece := gap ++ c.rest.take n
        let (gap, broken, c) := plainGap (c.forward n)
        if gap.isEmpty || c.peek == '#' || (!inFlow && (c.column : Int) < indent) then
          (piece, broken, c)
        else
          let (rest, broken, c) := plainPieces inFlow indent fuel gap broken c
          (piece ++ rest, broken, c)

/-- A plain scalar inside a block of the given indentation, and whether a break was passed behind
its last piece. -/
def plain (inFlow : Bool) (indent : Int) (c : Cursor) : List Char × Bool × Cursor :=
  plainPieces inFlow (indent + 1) (c.rest.length + 1) [] false c

/-- What happens to the breaks at the end of block text. -/
inductive Chomp where
  | strip
  | clip
  | keep
  deriving DecidableEq, Repr

def chompOf (ch : Char) : Option Chomp :=
  if ch == '+' then some .keep else if ch == '-' then some .strip else none

def increment (ch : Char) (c : Cursor) : Except Fault (Option Nat × Cursor) :=
  if ch.isDigit then
    if ch == '0' then .error .malformed else .ok (some (ch.toNat - 48), c.next)
  else .ok (none, c)

def blockHeader (c : Cursor) : Except Fault (Chomp × Option Nat × Cursor) := do
  let (chomp, inc, c) ← (match chompOf c.peek with
    | some chomp => do
      let c := c.next
      let (inc, c) ← increment c.peek c
      return (chomp, inc, c)
    | none => do
      let (inc, c) ← increment c.peek c
      if inc.isSome then
        match chompOf c.peek with
        | some chomp => return (chomp, inc, c.next)
        | none => return (Chomp.clip, inc, c)
      else return (Chomp.clip, inc, c) : Except Fault (Chomp × Option Nat × Cursor))
  if isSpaceBreakOrEnd c.peek then return (chomp, inc, c) else throw .malformed

def ignoredLine (c : Cursor) : Except Fault Cursor :=
  let c := c.skipWhile (· == ' ')
  let c := if c.peek == '#' then c.skipWhile (!isBreakOrEnd ·) else c
  if isBreakOrEnd c.peek then .ok c.lineBreak.2 else .error .malformed

/-- Empty lines in front of block text; its first line settles the indentation. -/
def blockIndentation : Nat → Nat → Cursor → List Char × Nat × Cursor
  | 0, deepest, c => ([], deepest, c)
  | fuel + 1, deepest, c =>
    if c.peek == ' ' then
      let c := c.next
      blockIndentation fuel (max deepest c.column) c
    else if isBreak c.peek then
      let (brk, c) := c.lineBreak
      let (more, deepest, c) := blockIndentation fuel deepest c
      (brk ++ more, deepest, c)
    else ([], deepest, c)

def blockBreaks (indent : Nat) : Nat → Cursor → List Char × Cursor
  | 0, c => ([], c)
  | fuel + 1, c =>
    let c := c.skipIndent indent
    if isBreak c.peek then
      let (brk, c) := c.lineBreak
      let (more, c) := blockBreaks indent fuel c
      (brk ++ more, c)
    else ([], c)

/-- Lines of block text. `breaks` are the empty lines before the next one, `last` the break that
ended the line before. -/
def blockLines (isFolded : Bool) (indent : Nat) :
    Nat → List Char → List Char → Cursor → List Char × List Char × List Char × Cursor
  | 0, breaks, last, c => ([], last, breaks, c)
  | fuel + 1, breaks, last, c =>
    if c.column == indent && !isEnd c.peek then
      let leadsText := !isSpaceOrTab c.peek
      let (line, c) := c.spanWhile (!isBreakOrEnd ·)
      let (brk, c) := c.lineBreak
      let (empty, c) := blockBreaks indent (c.rest.length + 1) c
      if c.column == indent && !isEnd c.peek then
        let joint :=
          if isFolded && brk == ['\n'] && leadsText && !isSpaceOrTab c.peek then
            if empty.isEmpty then [' '] else []
          else brk
        let (rest, last, tail, c) := blockLines isFolded indent fuel empty brk c
        (breaks ++ line ++ joint ++ rest, last, tail, c)
      else (breaks ++ line, brk, empty, c)
    else ([], last, breaks, c)

def block (isFolded : Bool) (parent : Int) (c : Cursor) : Except Fault (List Char × Cursor) := do
  let (chomp, inc, c) ← blockHeader c.next
  let c ← ignoredLine c
  let least := (max (parent + 1) 1).toNat
  let (breaks, indent, c) :=
    match inc with
    | none =>
      let (breaks, deepest, c) := blockIndentation (c.rest.length + 1) 0 c
      (breaks, max least deepest, c)
    | some n =>
      let indent := least + n - 1
      let (breaks, c) := blockBreaks indent (c.rest.length + 1) c
      (breaks, indent, c)
  let (text, last, tail, c) := blockLines isFolded indent (c.rest.length + 1) breaks [] c
  let ending :=
    match chomp with
    | .strip => []
    | .clip => last
    | .keep => last ++ tail
  return (text ++ ending, c)

end Scalar
end JudgedLint.Yaml
