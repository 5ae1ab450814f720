import JudgedLint.Yaml.Fault
import JudgedLint.Text.Surrogate

/-! A place in a document, and the classes of characters that its grammar speaks of. -/
namespace JudgedLint.Yaml

/-- What is read behind the last character. -/
def endChar : Char := Char.ofNat 0

def isAllowed (c : Char) : Bool :=
  let n := c.toNat
  n == 9 || n == 10 || n == 13 || (32 ≤ n && n ≤ 126) || n == 0x85 || (0xA0 ≤ n && n ≤ 0xD7FF) ||
    (0xE000 ≤ n && n ≤ 0xFFFD) || (0x10000 ≤ n && !Text.isStandIn c)

def isBreak (c : Char) : Bool :=
  c == '\n' || c == '\r' || c.toNat == 0x85 || c.toNat == 0x2028 || c.toNat == 0x2029

def isEnd (c : Char) : Bool := c == endChar

def isBreakOrEnd (c : Char) : Bool := isEnd c || isBreak c

def isSpaceBreakOrEnd (c : Char) : Bool := c == ' ' || isBreakOrEnd c

/-- Blank, tab, line break or end. -/
def isGap (c : Char) : Bool := c == '\t' || isSpaceBreakOrEnd c

def isSpaceOrTab (c : Char) : Bool := c == ' ' || c == '\t'

def isAsciiAlnum (c : Char) : Bool := c.isAlphanum

def isNameChar (c : Char) : Bool := isAsciiAlnum c || c == '-' || c == '_'

/-- The rest of the document, with the count of characters before it, its line and column. -/
structure Cursor where
  rest : List Char
  index : Nat
  line : Nat
  column : Nat

namespace Cursor

def start (cs : List Char) : Cursor := ⟨cs, 0, 0, 0⟩

def peekAt (c : Cursor) (n : Nat) : Char := (c.rest.drop n).headD endChar

def peek (c : Cursor) : Char := c.rest.headD endChar

def next (c : Cursor) : Cursor :=
  match c.rest with
  | [] => c
  | ch :: rest =>
    if isBreak ch && !(ch == '\r' && rest.head? == some '\n') then
      ⟨rest, c.index + 1, c.line + 1, 0⟩
    else if ch == '\uFEFF' then ⟨rest, c.index + 1, c.line, c.column⟩
    else ⟨rest, c.index + 1, c.line, c.column + 1⟩

def forward (c : Cursor) : Nat → Cursor
  | 0 => c
  | n + 1 => c.next.forward n

def spanWhile (p : Char → Bool) (c : Cursor) : List Char × Cursor :=
  let taken := c.rest.takeWhile p
  (taken, c.forward taken.length)

def skipWhile (p : Char → Bool) (c : Cursor) : Cursor := (c.spanWhile p).2

/-- Blanks ahead, but none at or beyond the given column. -/
def skipIndent (column : Nat) (c : Cursor) : Cursor :=
  let blanks := (c.rest.takeWhile (· == ' ')).length
  c.forward (min blanks (column - c.column))

/-- The line break ahead, if any, reduced to one character. -/
def lineBreak (c : Cursor) : List Char × Cursor :=
  match c.rest with
  | '\r' :: '\n' :: _ => (['\n'], c.forward 2)
  | ch :: _ =>
    if ch == '\r' || ch == '\n' || ch.toNat == 0x85 then (['\n'], c.next)
    else if isBreak ch then ([ch], c.next)
    else ([], c)
  | [] => ([], c)

def atSeparator (c : Cursor) : Bool :=
  let three := c.rest.take 3
  (three == ['-', '-', '-'] || three == ['.', '.', '.']) && isGap (c.peekAt 3)

end Cursor
end JudgedLint.Yaml
