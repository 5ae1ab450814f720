import JudgedLint.Text.Search

/-! Lines: the breaks that end them, and the reduction of every break to a line feed. -/
namespace JudgedLint.Text

/-- Characters that end a line; a carriage return with a line feed behind it is one break. -/
def isLineBreak (c : Char) : Bool :=
  let n := c.toNat
  (10 ≤ n && n ≤ 13) || (28 ≤ n && n ≤ 30) || n == 0x85 || n == 0x2028 || n == 0x2029

/-- The lines of a text without their breaks. A break at the very end starts no further line. -/
def linesOf : List Char → List (List Char)
  | [] => []
  | '\r' :: '\n' :: rest => [] :: linesOf rest
  | c :: rest =>
    if isLineBreak c then [] :: linesOf rest
    else
      match linesOf rest with
      | [] => [[c]]
      | line :: lines =>
        -- a break directly behind `c` already closed its line
        (c :: line) :: lines

def lines (s : String) : List String := (linesOf s.toList).map String.ofList

def unifyBreaks : List Char → List Char
  | [] => []
  | '\r' :: '\n' :: rest => '\n' :: unifyBreaks rest
  | c :: rest => (if c == '\r' then '\n' else c) :: unifyBreaks rest

/-- A text as a reader of text files sees it: every kind of line end is a line feed. -/
def universalNewlines (s : String) : String := String.ofList (unifyBreaks s.toList)

end JudgedLint.Text
