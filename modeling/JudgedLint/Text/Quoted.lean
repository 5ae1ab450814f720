import JudgedLint.Text.Hex
import JudgedLint.Text.Printable
import JudgedLint.Text.Surrogate

/-! Texts and bytes in quotes, as messages show values.

Single quotes are used unless the text holds a single quote and no double one; the quote in use
and the backslash are escaped, and what is not printable is written by its code. -/
namespace JudgedLint.Text

def singleQuote : Char := Char.ofNat 39

def quoteFor (cs : List Char) : Char :=
  if cs.contains singleQuote && !cs.contains '"' then '"' else singleQuote

def charCode (c : Char) : List Char :=
  let n := codeOf c
  if n < 256 then '\\' :: 'x' :: hexChars 2 n
  else if n < 65536 then '\\' :: 'u' :: hexChars 4 n
  else '\\' :: 'U' :: hexChars 8 n

def asciiOnly (s : String) : String :=
  String.ofList (s.toList.flatMap fun c => if c.toNat < 128 then [c] else charCode c)

def shownChar (quote c : Char) : List Char :=
  if c == quote || c == '\\' then ['\\', c]
  else if c == '\n' then ['\\', 'n']
  else if c == '\r' then ['\\', 'r']
  else if c == '\t' then ['\\', 't']
  else if isPrintable c then [c]
  else charCode c

def quoted (s : String) : String :=
  let quote := quoteFor s.toList
  String.ofList (quote :: s.toList.flatMap (shownChar quote) ++ [quote])

def shownByte (quote : Char) (b : UInt8) : List Char :=
  let n := b.toNat
  if 32 ≤ n && n < 127 || n == 9 || n == 10 || n == 13 then shownChar quote (Char.ofNat n)
  else '\\' :: 'x' :: hexChars 2 n

def quotedBytes (bs : List UInt8) : String :=
  let quote := quoteFor (bs.map fun b => Char.ofNat b.toNat)
  String.ofList ('b' :: quote :: bs.flatMap (shownByte quote) ++ [quote])

end JudgedLint.Text
