import JudgedLint.Json.Basic
import JudgedLint.Decimal.Shortest
import JudgedLint.Text.Hex
import JudgedLint.Text.Surrogate

/-! Writing JSON: on one line or indented, with or without escapes for what is not ASCII. A
surrogate without partner is always escaped. -/
namespace JudgedLint.Json

structure Layout where
  /-- Everything outside printable ASCII is escaped. -/
  ascii : Bool
  /-- Each item stands on a line of its own, two columns further in than its parent. -/
  indented : Bool

/-- One line, a blank behind each comma and colon. -/
def Layout.line : Layout := ⟨true, false⟩

def Layout.block : Layout := ⟨true, true⟩

def Layout.plainBlock : Layout := ⟨false, true⟩

def unicodeEscape (n : Nat) : List Char := '\\' :: 'u' :: Text.hexChars 4 n

/-- A code point outside ASCII as one escape, or as two beyond the first plane. -/
def codeEscape (n : Nat) : List Char :=
  if n < 0x10000 then unicodeEscape n
  else
    unicodeEscape (0xD800 + (n - 0x10000) / 0x400) ++ unicodeEscape (0xDC00 + (n - 0x10000) % 0x400)

def charText (ascii : Bool) (c : Char) : List Char :=
  let n := c.toNat
  if c == '"' then ['\\', '"']
  else if c == '\\' then ['\\', '\\']
  else if n == 8 then ['\\', 'b']
  else if n == 9 then ['\\', 't']
  else if n == 10 then ['\\', 'n']
  else if n == 12 then ['\\', 'f']
  else if n == 13 then ['\\', 'r']
  else if n < 32 then unicodeEscape n
  else if Text.isStandIn c then unicodeEscape (Text.codeOf c)
  else if ascii && 127 ≤ n then codeEscape n
  else [c]

def textChars (ascii : Bool) (cs : List Char) : List Char :=
  '"' :: cs.flatMap (charText ascii) ++ ['"']

def quotedText (ascii : Bool) (s : String) : String := String.ofList (textChars ascii s.toList)

def numberText (x : Float) : String :=
  match Decimal.Binary.ofFloat x with
  | .nan => "NaN"
  | .infinite negative => if negative then "-Infinity" else "Infinity"
  | .finite .. => Decimal.floatText x

def lineStart (depth : Nat) : String := String.ofList ('\n' :: List.replicate (2 * depth) ' ')

def bracketed (l : Layout) (depth : Nat) (opening closing : String) (parts : List String) :
    String :=
  if parts.isEmpty then opening ++ closing
  else if l.indented then
    let inner := lineStart (depth + 1)
    opening ++ inner ++ ("," ++ inner).intercalate parts ++ lineStart depth ++ closing
  else opening ++ ", ".intercalate parts ++ closing

mutual
def textAt (l : Layout) (depth : Nat) : Json → String
  | .null => "null"
  | .bool b => if b then "true" else "false"
  | .int n => toString n
  | .float x => numberText x
  | .str s => quotedText l.ascii s
  | .arr items => bracketed l depth "[" "]" (itemTexts l (depth + 1) items)
  | .obj ms => bracketed l depth "\x7b" "\x7d" (memberTexts l (depth + 1) ms)

def itemTexts (l : Layout) (depth : Nat) : List Json → List String
  | [] => []
  | j :: rest => textAt l depth j :: itemTexts l depth rest

def memberTexts (l : Layout) (depth : Nat) : List (String × Json) → List String
  | [] => []
  | (k, j) :: rest => (quotedText l.ascii k ++ ": " ++ textAt l depth j) :: memberTexts l depth rest
end

def render (l : Layout) (j : Json) : String := textAt l 0 j

end JudgedLint.Json
