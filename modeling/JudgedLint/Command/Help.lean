import JudgedLint.Command.Grammar

/-! Help texts: a line that shows how a command is used, and what its operands and options mean.

Lines have at most `lineWidth` characters; texts stand in a column of their own. -/
namespace JudgedLint.Command

def lineWidth : Nat := 78

def lastColumn : Nat := 24

/-- A piece of a text that stays on one line, and whether a blank stands in front of it. -/
abbrev Piece := Bool × String

/-- A word in pieces: it may be broken behind a hyphen that has two letters on either side. `before`
holds the characters of the word read so far, and `piece` those of the piece, the last one first. -/
def piecesOf (before piece : List Char) (spaced : Bool) : List Char → List Piece
  | [] => [(spaced, String.ofList piece.reverse)]
  | '-' :: rest =>
    let around := before.take 2 ++ rest.take 2
    if around.length == 4 && around.all Char.isAlpha then
      (spaced, String.ofList ('-' :: piece).reverse) :: piecesOf ('-' :: before) [] false rest
    else piecesOf ('-' :: before) ('-' :: piece) spaced rest
  | c :: rest => piecesOf (c :: before) (c :: piece) spaced rest

def textPieces (text : String) : List Piece :=
  (Text.split ' ' text).flatMap fun word => piecesOf [] [] true word.toList

def fill (width : Nat) (line : String) : List Piece → List String
  | [] => if line.isEmpty then [] else [line]
  | (spaced, piece) :: rest =>
    let longer := if spaced then line ++ " " ++ piece else line ++ piece
    if line.isEmpty then fill width piece rest
    else if longer.length ≤ width then fill width longer rest
    else line :: fill width piece rest

def blanks (n : Nat) : String := String.ofList (List.replicate n ' ')

def Switch.usage (s : Switch) : String :=
  let name := s.names.headD ""
  match s.value with
  | some v => s!"{name} {v}"
  | none => name

def Switch.heading (s : Switch) : String :=
  Text.join ", " (s.names.map fun name =>
    match s.value with
    | some v => s!"{name} {v}"
    | none => name)

def choiceText (choices : List (String × String)) : String :=
  "\x7b" ++ Text.join "," (choices.map (·.1)) ++ "\x7d"

namespace Grammar

/-- The options on the line of usage; those that exclude each other share a bracket. -/
def switchParts (g : Grammar) : List String :=
  let shared := g.switches.filter fun s => g.exclusive.contains s.flag
  g.switches.filterMap fun s =>
    if !g.exclusive.contains s.flag then some s!"[{s.usage}]"
    else if shared.head? == some s then
      some ("[" ++ Text.join " | " (shared.map (·.usage)) ++ "]")
    else none

def operandParts (g : Grammar) : List String :=
  match g.operands with
  | .none => []
  | .files name _ => [s!"[{name} ...]"]
  | .command _ choices => [choiceText choices, "..."]

/-- How the command is used. If it takes more than a line, operands begin a line of their own. -/
def usage (g : Grammar) : String :=
  let lead := s!"usage: {g.program} "
  let onOneLine := lead ++ Text.join " " (g.switchParts ++ g.operandParts)
  if onOneLine.length ≤ lineWidth then onOneLine
  else
    let lines (parts : List String) := fill (lineWidth - lead.length) "" (parts.map (true, ·))
    lead ++ Text.join ("\n" ++ blanks lead.length) (lines g.switchParts ++ lines g.operandParts)

def operandEntries (g : Grammar) : List (Nat × String × String) :=
  match g.operands with
  | .none => []
  | .files name help => [(2, name, help)]
  | .command _ choices => (2, choiceText choices, "") :: choices.map fun c => (4, c.1, c.2)

def switchEntries (g : Grammar) : List (Nat × String × String) :=
  g.switches.map fun s => (2, s.heading, s.help)

def column (g : Grammar) : Nat :=
  let longest := (g.operandEntries ++ g.switchEntries).foldl (fun n e => max n e.2.1.length) 0
  min (longest + 4) lastColumn

/-- A heading with its text beside it, or below it if the heading is too long. -/
def entryLines (column : Nat) (entry : Nat × String × String) : List String :=
  let (indent, heading, text) := entry
  let first := blanks indent ++ heading
  match fill (lineWidth - column) "" (if text.isEmpty then [] else textPieces text) with
  | [] => [first]
  | line :: more =>
    let below := more.map (blanks column ++ ·)
    if first.length + 2 ≤ column then
      (first ++ blanks (column - first.length) ++ line) :: below
    else first :: (blanks column ++ line) :: below

def chapter (g : Grammar) (title : String) (entries : List (Nat × String × String)) : List String :=
  if entries.isEmpty then []
  else [Text.join "\n" (title :: entries.flatMap (entryLines g.column))]

def help (g : Grammar) : String :=
  let about :=
    if g.description.isEmpty then []
    else [Text.join "\n" (fill lineWidth "" (textPieces g.description))]
  Text.join "\n\n" ([g.usage] ++ about ++ g.chapter "positional arguments:" g.operandEntries ++
    g.chapter "options:" g.switchEntries) ++ "\n"

end Grammar
end JudgedLint.Command
