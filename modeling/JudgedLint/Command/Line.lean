import JudgedLint.Command.Grammar
import JudgedLint.Text.Digit
import JudgedLint.Text.Quoted

/-! Reading a line of words by a grammar.

Each word is sorted first: it is an option, an operand, or the divider behind which all words are
operands. Then the words are taken in order. Long options may be shortened as long as one option
fits; short ones may share a word, and a value may stand in the same word or in the next. The files
of a line stand side by side, and a command takes all the words behind it. -/
namespace JudgedLint.Command

inductive UsageFault where
  | ambiguous (word : String) (names : List String)
  | valueMissing (s : Switch)
  | valueUnused (s : Switch) (value : String)
  | excluded (s other : Switch)
  | unknownCommand (operand word : String) (choices : List String)
  | strangers (words : List String)
  deriving DecidableEq, Repr

def UsageFault.message : UsageFault → String
  | .ambiguous word names => s!"ambiguous option: {word} could match " ++ Text.join ", " names
  | .valueMissing s => s!"argument {s.title}: expected one argument"
  | .valueUnused s value =>
    s!"argument {s.title}: ignored explicit argument {Text.quoted value}"
  | .excluded s other => s!"argument {s.title}: not allowed with argument {other.title}"
  | .unknownCommand operand word choices =>
    s!"argument {operand}: invalid choice: {Text.quoted word} (choose from " ++
      Text.join ", " (choices.map Text.quoted) ++ ")"
  | .strangers words => "unrecognized arguments: " ++ Text.join " " words

/-- Why reading a line stops before there is anything to do. -/
inductive Stop where
  | help (g : Grammar)
  | version
  | refused (g : Grammar) (fault : UsageFault)
  deriving DecidableEq, Repr

/-- An option as a word names it, with the value that stands in the same word. -/
structure Hit where
  switch : Switch
  name : String
  value : Option String
  /-- Whether an equals sign stands in front of the value. -/
  isSigned : Bool := false
  deriving DecidableEq, Repr

inductive Word where
  | operand (text : String)
  | divider
  | option (hit : Hit)
  | stranger (text : String)
  deriving DecidableEq, Repr

def dividerText : String := "--"

def Word.isOperand : Word → Bool
  | .operand _ => true
  | _ => false

/-- A negative number is not taken for an option: a minus, then digits, or a point with digits
behind it and perhaps digits in front. A line break may follow. -/
def isNegativeNumber (word : String) : Bool :=
  match word.toList with
  | '-' :: cs =>
    let cs := if cs.getLast? == some '\n' then cs.dropLast else cs
    let rest := cs.dropWhile Text.isDecimalDigit
    let digits (cs : List Char) : Bool := !cs.isEmpty && cs.all Text.isDecimalDigit
    match rest with
    | '.' :: behind => digits behind
    | _ => digits cs
  | _ => false

namespace Grammar

def namedSwitches (g : Grammar) : List (String × Switch) :=
  g.switches.flatMap fun s => s.names.map fun name => (name, s)

def find? (g : Grammar) (name : String) : Option Switch := g.namedSwitches.lookup name

def isLong (word : String) : Bool := Text.startsWith word dividerText

/-- The options that a word may stand for if it is not the name of one. -/
def candidates (g : Grammar) (word : String) : List Hit :=
  if isLong word then
    let (start, value) := match Text.cut? '=' word with
      | some (start, value) => (start, some value)
      | none => (word, none)
    g.namedSwitches.filterMap fun n =>
      if Text.startsWith n.1 start then some ⟨n.2, n.1, value, value.isSome⟩ else none
  else
    let (short, value) := (word.toList.take 2, word.toList.drop 2)
    g.namedSwitches.filterMap fun n =>
      if n.1.toList == short then some ⟨n.2, n.1, some (String.ofList value), false⟩
      else if Text.startsWith n.1 word then some ⟨n.2, n.1, none, false⟩
      else none

def named? (g : Grammar) (word : String) : Option Hit :=
  match g.find? word, Text.cut? '=' word with
  | some s, _ => some ⟨s, word, none, false⟩
  | none, some (name, value) => (g.find? name).map fun s => ⟨s, name, some value, true⟩
  | none, none => none

/-- Sorts a word in front of the divider. -/
def sortWord (g : Grammar) (word : String) : Except UsageFault Word :=
  if !Text.startsWith word "-" then .ok (.operand word)
  else
    match g.named? word with
    | some hit => .ok (.option hit)
    | none =>
      if word == "-" then .ok (.operand word)
      else
        match g.candidates word with
        | [hit] => .ok (.option hit)
        | [] =>
          if isNegativeNumber word || word.toList.contains ' ' then .ok (.operand word)
          else .ok (.stranger word)
        | hits => .error (.ambiguous word (hits.map (·.name)))

def sortWords (g : Grammar) : List String → Except UsageFault (List Word)
  | [] => .ok []
  | word :: rest =>
    if word == dividerText then .ok (.divider :: rest.map .operand)
    else do
      let w ← g.sortWord word
      let ws ← g.sortWords rest
      return w :: ws

/-- What a word with options holds: the options in order, one behind them that still wants a value,
and what is left of the word if it is no option. -/
structure Unfolded where
  taken : List (Switch × String) := []
  wanting : Option Switch := none
  stranger : Option String := none
  deriving DecidableEq, Repr

/-- Takes apart a word that begins with a given option. `left` is what stands behind its name, and
`isSigned` says whether an equals sign stands between. -/
def unfold (g : Grammar) (s : Switch) (isLong isSigned : Bool) :
    Option (List Char) → Except UsageFault Unfolded
  | none => .ok (if s.value.isSome then { wanting := some s } else { taken := [(s, "")] })
  | some left =>
    if s.value.isSome then .ok { taken := [(s, String.ofList left)] }
    else
      match left with
      | [] => .error (.valueUnused s "")
      | c :: more =>
        if isLong || isSigned || c == '-' then .error (.valueUnused s (String.ofList left))
        else
          match g.find? (String.ofList ['-', c]) with
          | none => .ok { taken := [(s, "")], stranger := some (String.ofList ('-' :: left)) }
          | some next => do
            let u ← match more with
              | [] => unfold g next false false none
              | '=' :: value => unfold g next false true (some value)
              | more => unfold g next false false (some more)
            return { u with taken := (s, "") :: u.taken }
  termination_by left => (left.map (·.length + 1)).getD 0
  decreasing_by all_goals simp_all

end Grammar

structure Reading where
  given : List (Switch × String) := []
  files : List String := []
  /-- Whether the files have begun, and whether they have come to an end. -/
  begun : Bool := false
  ended : Bool := false
  command : Option (String × List String) := none
  strangers : List String := []
  deriving Repr

namespace Reading

def has (r : Reading) (flag : Flag) : Bool := r.given.any (·.1.flag == flag)

/-- The value of an option; the last one counts. -/
def value? (r : Reading) (flag : Flag) : Option String :=
  (r.given.reverse.find? (·.1.flag == flag)).map (·.2)

/-- Takes options in order, unless one asks for a text or excludes another. -/
def take (g : Grammar) (r : Reading) : List (Switch × String) → Except Stop Reading
  | [] => .ok r
  | (s, value) :: rest =>
    match s.flag with
    | .help => .error (.help g)
    | .version => .error .version
    | flag =>
      let rivals := if g.exclusive.contains flag then g.exclusive.filter (· != flag) else []
      match r.given.find? fun p => rivals.contains p.1.flag with
      | some rival => .error (.refused g (.excluded s rival.1))
      | none => take g { r with given := r.given ++ [(s, value)], ended := r.begun } rest

/-- Takes a word that is no option, and says whether it ends the line. -/
def takeOperand (g : Grammar) (r : Reading) (text : String) (isDivider : Bool)
    (rest : List String) : Except Stop (Reading × Bool) :=
  match g.operands with
  | .none => .ok ({ r with strangers := r.strangers ++ [text] }, false)
  | .files _ _ =>
    if r.ended then .ok ({ r with strangers := r.strangers ++ [text] }, false)
    else
      let files := if isDivider then r.files else r.files ++ [text]
      .ok ({ r with files, begun := true }, false)
  | .command name choices =>
    if isDivider && rest.isEmpty then .ok ({ r with strangers := r.strangers ++ [text] }, true)
    else if (choices.lookup text).isSome then .ok ({ r with command := some (text, rest) }, true)
    else .error (.refused g (.unknownCommand name text (choices.map (·.1))))

/-- Takes the sorted words of a line, of which `texts` are the texts. -/
def takeAll (g : Grammar) : List (Word × String) → Reading → Except Stop Reading
  | [], r => .ok r
  | (w, text) :: rest, r =>
    let takeText (isDivider : Bool) : Except Stop Reading := do
      let (r, isEnd) ← r.takeOperand g text isDivider (rest.map (·.2))
      if isEnd then return r else takeAll g rest r
    match w with
    | .operand _ => takeText false
    | .divider => takeText true
    | .stranger text =>
      takeAll g rest { r with strangers := r.strangers ++ [text], ended := r.begun }
    | .option hit =>
      let written := hit.value.map String.toList
      match g.unfold hit.switch (Grammar.isLong hit.name) hit.isSigned written with
      | .error fault => .error (.refused g fault)
      | .ok u =>
        let r := { r with strangers := r.strangers ++ u.stranger.toList }
        match u.wanting, rest with
        | none, rest => do takeAll g rest (← r.take g u.taken)
        | some s, (.operand _, value) :: rest => do
          takeAll g rest (← r.take g (u.taken ++ [(s, value)]))
        | some s, _ => .error (.refused g (.valueMissing s))

def ofWords (g : Grammar) (words : List String) : Except Stop Reading :=
  match g.sortWords words with
  | .error fault => .error (.refused g fault)
  | .ok sorted => takeAll g (sorted.zip words) {}

end Reading
end JudgedLint.Command
