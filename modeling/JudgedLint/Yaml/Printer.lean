import JudgedLint.Datum
import JudgedLint.Yaml.Tag
import JudgedLint.Text.Search
import JudgedLint.Decimal.Fixed

/-! Writing data as a document: blocks, two columns further in per level, lines folded at eighty
columns. A text is written plainly where it reads back as the same text, else in single quotes, and
in double quotes where it holds what only escapes can write. -/
namespace JudgedLint.Yaml

/-- The column beyond which a text is folded at its next blank. -/
def lineWidth : Nat := 80

/-- Which ways of writing a text keep it. -/
structure Analysis where
  isEmpty : Bool
  multiline : Bool
  plain : Bool
  single : Bool
  block : Bool

def isTextBreak (c : Char) : Bool :=
  c == '\n' || c.toNat == 0x85 || c.toNat == 0x2028 || c.toNat == 0x2029

/-- Characters that every way of quoting keeps as they are. -/
def isOrdinary (c : Char) : Bool :=
  let n := c.toNat
  n == 10 || (32 ≤ n && n ≤ 126) ||
    ((n == 0x85 || (0xA0 ≤ n && n ≤ 0xD7FF) || (0xE000 ≤ n && n ≤ 0xFFFD) ||
      (0x10000 ≤ n && n < 0x10FFFF && !Text.isStandIn c)) && n != 0xFEFF)

def isIndicator (c : Char) : Bool :=
  "#,[]\x7b\x7d&*!|>\"%@".toList.contains c || c.toNat == 39 || c.toNat == 96

/-- Whether a character gives a block another meaning, between the ones beside it. -/
def isBlockSyntax (previous : Option Char) (c : Char) (next : Option Char) : Bool :=
  let gapBefore := (previous.map isGap).getD true
  let gapAfter := (next.map isGap).getD true
  match previous with
  | none => isIndicator c || ((c == '?' || c == ':' || c == '-') && gapAfter)
  | some _ => (c == ':' && gapAfter) || (c == '#' && gapBefore)

/-- Whether some character of the text, between its neighbours, satisfies `p`. -/
def anyBetween (p : Option Char → Char → Option Char → Bool) :
    Option Char → List Char → Bool
  | _, [] => false
  | previous, c :: rest => p previous c rest.head? || anyBetween p (some c) rest

def analyze (cs : List Char) : Analysis :=
  match cs with
  | [] => ⟨true, false, true, true, false⟩
  | first :: _ =>
    let last := cs.getLast?.getD first
    let isSeparator := ['-', '-', '-'].isPrefixOf cs || ['.', '.', '.'].isPrefixOf cs
    let syntaxInside := isSeparator || anyBetween isBlockSyntax none cs
    let breaks := cs.any isTextBreak
    let special := cs.any (!isOrdinary ·)
    let isEdge (c : Char) : Bool := c == ' ' || isTextBreak c
    let breakSpace := anyBetween (fun b c _ => c == ' ' && (b.map isTextBreak).getD false) none cs
    let spaceBreak := anyBetween (fun b c _ => isTextBreak c && b == some ' ') none cs
    { isEmpty := false
      multiline := breaks
      plain := !(isEdge first || isEdge last || breakSpace || spaceBreak || special || breaks ||
        syntaxInside)
      single := !(breakSpace || spaceBreak || special)
      block := !(last == ' ' || spaceBreak || special) }

/-- The page: what is written, most recent first, and where the pen stands. -/
structure Page where
  written : List (List Char)
  column : Nat
  afterGap : Bool
  /-- Nothing but indentation and indicators stands on the line. -/
  atIndent : Bool

namespace Page

def blank : Page := ⟨[], 0, true, true⟩

def text (p : Page) : String := String.ofList p.written.reverse.flatten

def put (cs : List Char) (p : Page) : Page :=
  { p with written := cs :: p.written, column := p.column + cs.length }

def lineBreak (c : Char) (p : Page) : Page := ⟨[c] :: p.written, 0, true, true⟩

def indicator (cs : List Char) (needGap gapAfter keepsIndent : Bool) (p : Page) : Page :=
  let p := p.put (if p.afterGap || !needGap then cs else ' ' :: cs)
  { p with afterGap := gapAfter, atIndent := p.atIndent && keepsIndent }

/-- Goes to the given column, on a new line unless the pen stands in the indentation before it. -/
def indentTo (indent : Nat) (p : Page) : Page :=
  let p :=
    if !p.atIndent || indent < p.column || (p.column == indent && !p.afterGap) then
      p.lineBreak '\n'
    else p
  if p.column < indent then
    { p.put (List.replicate (indent - p.column) ' ') with afterGap := true }
  else p

end Page

/-- Splits at the ends of runs of characters of one kind. -/
def runs (kind : Char → Nat) : List Char → List (List Char)
  | [] => []
  | c :: rest =>
    match runs kind rest with
    | [] => [[c]]
    | [] :: more => [c] :: more
    | (d :: run) :: more =>
      if kind c == kind d then (c :: d :: run) :: more else [c] :: (d :: run) :: more

/-- Plain text; single blanks beyond the line's width become line ends. -/
def writePlain (indent : Nat) (split : Bool) (cs : List Char) (p : Page) : Page :=
  if cs.isEmpty then p
  else
    let p := if p.afterGap then p else p.put [' ']
    let p := { p with afterGap := false, atIndent := false }
    (runs (fun c => if c == ' ' then 1 else 0) cs).foldl (fun p run =>
      if run == [' '] && lineWidth < p.column && split then
        { p.indentTo indent with afterGap := false, atIndent := false }
      else p.put run) p

/-- The runs of a text in single quotes. `first` and the emptiness of the rest mark the ends, where
no line is folded. -/
def singleRuns (indent : Nat) (split : Bool) : Bool → List (List Char) → Page → Page
  | _, [], p => p
  | first, run :: rest, p =>
    let c := run.headD ' '
    let p :=
      if c == ' ' then
        if run == [' '] && lineWidth < p.column && split && !first && !rest.isEmpty then
          p.indentTo indent
        else p.put run
      else if isTextBreak c then
        let p := if c == '\n' then p.lineBreak '\n' else p
        (run.foldl (fun p b => p.lineBreak b) p).indentTo indent
      else p.put (run.flatMap fun c => if c.toNat == 39 then [c, c] else [c])
    singleRuns indent split false rest p

/-- Text in single quotes: a quote is written twice, a line end as an empty line more. -/
def writeSingle (indent : Nat) (split : Bool) (cs : List Char) (p : Page) : Page :=
  let quote := [Char.ofNat 39]
  let kind (c : Char) : Nat := if c == ' ' then 1 else if isTextBreak c then 2 else 0
  (singleRuns indent split true (runs kind cs) (p.indicator quote true false false)).indicator
    quote false false false

def upperHex (width n : Nat) : List Char := (Text.hexChars width n).map Char.toUpper

def escapeCode (n : Nat) : List Char :=
  match ([(0, '0'), (7, 'a'), (8, 'b'), (9, 't'), (10, 'n'), (11, 'v'), (12, 'f'), (13, 'r'),
      (27, 'e'), (34, '"'), (92, '\\'), (0x85, 'N'), (0xA0, '_'), (0x2028, 'L'),
      (0x2029, 'P')] : List (Nat × Char)).lookup n with
  | some c => ['\\', c]
  | none =>
    if n ≤ 0xFF then '\\' :: 'x' :: upperHex 2 n
    else if n ≤ 0xFFFF then '\\' :: 'u' :: upperHex 4 n
    else '\\' :: 'U' :: upperHex 8 n

def isVerbatim (c : Char) : Bool :=
  let n := c.toNat
  !(n == 34 || n == 92 || n == 0x85 || n == 0x2028 || n == 0x2029 || n == 0xFEFF) &&
    ((32 ≤ n && n ≤ 126) || (0xA0 ≤ n && n ≤ 0xD7FF) || (0xE000 ≤ n && n ≤ 0xFFFD))

/-- Text in double quotes, character by character. `pending` holds what has been passed and not
yet written, last first; `index` counts the characters before, out of `size`. Beyond the line's
width a text is folded at a blank or behind an escape, never at its ends. -/
def doubleFrom (indent : Nat) (split : Bool) (size : Nat) :
    Nat → List Char → List Char → Page → Page
  | _, pending, [], p => p.put pending.reverse
  | index, pending, c :: rest, p =>
    let inside := split && 0 < index && index + 1 < size
    let fold (p : Page) : Page :=
      let p := (p.put (pending.reverse ++ ['\\'])).indentTo indent
      { p with afterGap := false, atIndent := false }
    if isVerbatim c then
      if inside && (c == ' ' || pending.isEmpty) && lineWidth < p.column + pending.length then
        let p := if c == ' ' then (fold p).put ['\\'] else fold p
        doubleFrom indent split size (index + 1) [c] rest p
      else doubleFrom indent split size (index + 1) (c :: pending) rest p
    else
      let p := (p.put pending.reverse).put (escapeCode (Text.codeOf c))
      let p :=
        if inside && lineWidth + 1 < p.column then
          let p := { (p.put ['\\']).indentTo indent with afterGap := false, atIndent := false }
          if rest.head? == some ' ' then p.put ['\\'] else p
        else p
      doubleFrom indent split size (index + 1) [] rest p

def writeDouble (indent : Nat) (split : Bool) (cs : List Char) (p : Page) : Page :=
  let p := p.indicator ['"'] true false false
  (doubleFrom indent split cs.length 0 [] cs p).indicator ['"'] false false false

def writeLiteral (indent : Nat) (cs : List Char) (p : Page) : Page :=
  let p := (p.indicator ['|'] true false false).lineBreak '\n'
  (Text.splitOnChar '\n' (cs.dropLast)).foldl (fun p line =>
    ((p.indentTo indent).put line).lineBreak '\n') p

def base64Group (bs : List UInt8) : List Char :=
  let digit (n : Nat) : Char := ("ABCDEFGHIJKLMNOPQRSTUVWXYZabcdefghijklmnopqrstuvwxyz0123456789+/"
    |>.toList.getD n '=')
  match bs with
  | [a, b, c] =>
    let n := a.toNat * 65536 + b.toNat * 256 + c.toNat
    [digit (n / 262144), digit (n / 4096 % 64), digit (n / 64 % 64), digit (n % 64)]
  | [a, b] =>
    let n := a.toNat * 1024 + b.toNat * 4
    [digit (n / 4096), digit (n / 64 % 64), digit (n % 64), '=']
  | [a] =>
    let n := a.toNat * 16
    [digit (n / 64), digit (n % 64), '=', '=']
  | _ => []

def base64Lines : Nat → List UInt8 → List Char
  | 0, _ => []
  | fuel + 1, bs =>
    if bs.isEmpty then []
    else
      let line := bs.take 57
      let groups := (List.range ((line.length + 2) / 3)).flatMap fun i =>
        base64Group ((line.drop (3 * i)).take 3)
      groups ++ '\n' :: base64Lines fuel (bs.drop 57)

/-- The scalar that a datum is written as, if it is no collection: its type and text. -/
def scalarText? : Datum → Option (Tag × String)
  | .null => some (.null, "null")
  | .bool b => some (.bool, if b then "true" else "false")
  | .int n => some (.int, toString n)
  | .float x =>
    match Decimal.Binary.ofFloat x with
    | .nan => some (.float, ".nan")
    | .infinite negative => some (.float, if negative then "-.inf" else ".inf")
    | .finite .. =>
      let t := Decimal.floatText x
      -- an exponent alone does not make a number
      match Text.cut? 'e' t with
      | some (digits, exponent) =>
        some (.float, if digits.toList.contains '.' then t else digits ++ ".0e" ++ exponent)
      | none => some (.float, t)
  | .str s => some (.str, s)
  | .bytes bs => some (.binary, String.ofList (base64Lines (bs.length + 1) bs))
  | .date d => some (.timestamp, d.text)
  | .moment m => some (.timestamp, m.text " ")
  | _ => none

def tagText (t : Tag) : String :=
  match Tag.names.find? fun n => n.2 == t with
  | some (name, _) => "!!" ++ name
  | none => "!"

/-- The labels met so far, the numbers of those met more than once, and whether every whole number
is one that can be written. -/
structure Mentions where
  seen : List Nat
  numbers : List (Nat × Nat)
  writable : Bool

def Mentions.again (label : Nat) (m : Mentions) : Mentions :=
  if (m.numbers.lookup label).isSome then m
  else { m with numbers := m.numbers ++ [(label, m.numbers.length + 1)] }

mutual
def mentions : Datum → Mentions → Mentions
  | .labelled label d, m =>
    if m.seen.contains label then m.again label
    else mentions d { m with seen := label :: m.seen }
  | .back label _, m => m.again label
  | .int n, m => { m with writable := m.writable && Datum.isWritable n }
  | .list items, m => itemMentions items m
  | .set items, m => itemMentions items m
  | .map entries, m => entryMentions entries m
  | _, m => m

def itemMentions : List Datum → Mentions → Mentions
  | [], m => m
  | d :: rest, m => itemMentions rest (mentions d m)

def entryMentions : List (Datum × Datum) → Mentions → Mentions
  | [], m => m
  | (k, v) :: rest, m => entryMentions rest (mentions v (mentions k m))
end

def anchorText (n : Nat) : List Char := ("id" ++ Decimal.padded 3 n).toList

structure Spot where
  indent : Option Nat
  inMapping : Bool
  isKey : Bool

/-- The page and the labels whose data stand on it already. -/
structure Sheet where
  page : Page
  printed : List Nat

def Sheet.on (f : Page → Page) (s : Sheet) : Sheet := { s with page := f s.page }

def deeper (indent : Option Nat) (first : Nat) : Nat :=
  match indent with
  | none => first
  | some n => n + 2

def writeScalar (spot : Spot) (tag : Tag) (text : String) (p : Page) : Page :=
  let cs := text.toList
  let a := analyze cs
  let isPlain := Tag.ofPlain text == tag && a.plain && !(spot.isKey && (a.isEmpty || a.multiline))
  let isLiteral := tag == .binary && !spot.isKey && a.block
  let isSingle := tag != .binary && a.single && !(spot.isKey && a.multiline)
  let split := !spot.isKey
  let indent := deeper spot.indent 2
  let p :=
    if isPlain || tag == .str then p else p.indicator (tagText tag).toList true false false
  if isPlain then writePlain indent split cs p
  else if isLiteral then writeLiteral indent cs p
  else if isSingle then writeSingle indent split cs p
  else writeDouble indent split cs p

def writeOther (spot : Spot) (d : Datum) (p : Page) : Page :=
  match scalarText? d with
  | none => p
  | some (tag, text) => writeScalar spot tag text p

/-- Whether a key may stand in front of its colon without an indicator of its own. -/
def isSimpleKey (m : Mentions) (printed : List Nat) (d : Datum) : Bool :=
  let anchor : Nat := match d with
    | .labelled label _ => if (m.numbers.lookup label).isSome then 5 else 0
    | _ => 0
  let isAlias : Bool := match d with
    | .labelled label _ => printed.contains label
    | .back .. => true
    | _ => false
  isAlias ||
    (match scalarText? d.bare with
     | some (tag, text) =>
       let a := analyze text.toList
       anchor + (tagText tag).length + text.length < 128 && !a.isEmpty && !a.multiline
     | none => false)

mutual
/-- Writes a datum; one that is mentioned again gets a name, and later mentions only that name. -/
def write (m : Mentions) (spot : Spot) : Datum → Sheet → Sheet
  | .labelled label d, s =>
    match m.numbers.lookup label with
    | none => writeBare m spot d s
    | some n =>
      if s.printed.contains label then
        s.on (·.indicator ('*' :: anchorText n) true false false)
      else
        let s := s.on (·.indicator ('&' :: anchorText n) true false false)
        writeBare m spot d { s with printed := label :: s.printed }
  | .back label _, s =>
    s.on (·.indicator ('*' :: anchorText ((m.numbers.lookup label).getD 0)) true false false)
  | .null, s => s.on (writeScalar spot .null "null")
  | .bool b, s => s.on (writeScalar spot .bool (if b then "true" else "false"))
  | .list items, s => writeList m spot items s
  | .set items, s => writeSet m spot items s
  | .map entries, s => writeMap m spot entries s
  | d, s => s.on (writeOther spot d)

def writeBare (m : Mentions) (spot : Spot) : Datum → Sheet → Sheet
  | .list items, s => writeList m spot items s
  | .set items, s => writeSet m spot items s
  | .map entries, s => writeMap m spot entries s
  | d, s => s.on (writeOther spot d)

def writeList (m : Mentions) (spot : Spot) (items : List Datum) (s : Sheet) : Sheet :=
  if items.isEmpty then
    s.on fun p => (p.indicator ['['] true true false).indicator [']'] false false false
  else
    let level := spot.inMapping && !s.page.atIndent
    let indent := if level then spot.indent.getD 0 else deeper spot.indent 0
    writeItems m indent items s

def writeItems (m : Mentions) (indent : Nat) : List Datum → Sheet → Sheet
  | [], s => s
  | d :: rest, s =>
    let s := s.on fun p => (p.indentTo indent).indicator ['-'] true false true
    writeItems m indent rest (write m ⟨some indent, false, false⟩ d s)

def writeSet (m : Mentions) (spot : Spot) (items : List Datum) (s : Sheet) : Sheet :=
  let s := s.on (·.indicator "!!set".toList true false false)
  if items.isEmpty then
    s.on fun p => (p.indicator ['\x7b'] true true false).indicator ['\x7d'] false false false
  else writeMembers m (deeper spot.indent 0) items s

def writeMembers (m : Mentions) (indent : Nat) : List Datum → Sheet → Sheet
  | [], s => s
  | k :: rest, s =>
    let s := s.on (·.indentTo indent)
    let value (s : Sheet) : Sheet :=
      s.on (writeScalar ⟨some indent, true, false⟩ .null "null")
    let s :=
      if isSimpleKey m s.printed k then
        let s := write m ⟨some indent, true, true⟩ k s
        value (s.on (·.indicator [':'] false false false))
      else
        let s := write m ⟨some indent, true, false⟩ k (s.on (·.indicator ['?'] true false true))
        value (s.on fun p => (p.indentTo indent).indicator [':'] true false true)
    writeMembers m indent rest s

def writeMap (m : Mentions) (spot : Spot) (entries : List (Datum × Datum)) (s : Sheet) : Sheet :=
  if entries.isEmpty then
    s.on fun p => (p.indicator ['\x7b'] true true false).indicator ['\x7d'] false false false
  else writeEntries m (deeper spot.indent 0) entries s

def writeEntries (m : Mentions) (indent : Nat) : List (Datum × Datum) → Sheet → Sheet
  | [], s => s
  | (k, v) :: rest, s =>
    let s := s.on (·.indentTo indent)
    let s :=
      if isSimpleKey m s.printed k then
        let s := write m ⟨some indent, true, true⟩ k s
        write m ⟨some indent, true, false⟩ v (s.on (·.indicator [':'] false false false))
      else
        let s := write m ⟨some indent, true, false⟩ k (s.on (·.indicator ['?'] true false true))
        write m ⟨some indent, true, false⟩ v
          (s.on fun p => (p.indentTo indent).indicator [':'] true false true)
    writeEntries m indent rest s
end

def isWritable (d : Datum) : Bool := (mentions d ⟨[], [], true⟩).writable

def render (d : Datum) : String :=
  let m := mentions d ⟨[], [], true⟩
  ((write m ⟨none, false, false⟩ d ⟨Page.blank, []⟩).page.indentTo 0).text

end JudgedLint.Yaml
