import JudgedLint.Text.WordChar
import JudgedLint.Text.Digit

/-! Phrases that are searched for in messages, without regard to case. -/
namespace JudgedLint.Model

inductive Sign where
  /-- A character, given in lower case. -/
  | char (c : Char)
  | digit
  /-- Any character but a line feed. -/
  | any
  /-- The edge of a word, which takes no room. -/
  | edge
  deriving DecidableEq, Repr

abbrev Phrase := List Sign

/-- A character without regard to case, as far as it can equal an ASCII letter. -/
def foldCase (c : Char) : Char :=
  if c == 'ſ' then 's' else if c == Char.ofNat 0x212A then 'k' else if c == 'İ' || c == 'ı' then 'i'
  else c.toLower

def isWord (c : Option Char) : Bool := (c.map Text.isWordChar).getD false

/-- Whether the phrase starts here, behind the given character. -/
def Phrase.startsAt : Phrase → Option Char → List Char → Bool
  | [], _, _ => true
  | .edge :: rest, before, cs =>
    isWord before != isWord cs.head? && Phrase.startsAt rest before cs
  | _ :: _, _, [] => false
  | .char c :: rest, _, d :: cs => foldCase d == c && Phrase.startsAt rest (some d) cs
  | .digit :: rest, _, d :: cs => Text.isDecimalDigit d && Phrase.startsAt rest (some d) cs
  | .any :: rest, _, d :: cs => d != '\n' && Phrase.startsAt rest (some d) cs

def Phrase.occursFrom (p : Phrase) : Option Char → List Char → Bool
  | before, [] => p.startsAt before []
  | before, c :: cs => p.startsAt before (c :: cs) || p.occursFrom (some c) cs

def Phrase.occursIn (p : Phrase) (s : String) : Bool := p.occursFrom none s.toList

def literally (s : String) : Phrase := s.toList.map .char

def wholeWord (p : Phrase) : Phrase := .edge :: p ++ [.edge]

def anyOccurs (ps : List Phrase) (s : String) : Bool := ps.any (·.occursIn s)

end JudgedLint.Model
