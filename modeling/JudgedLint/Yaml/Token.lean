import JudgedLint.Yaml.Scalar
import JudgedLint.Text.Utf8

/-! Tokens of a document, and the lexer that finds them.

Indentation and the places of keys become tokens of their own: a block starts where text stands
further in than before and ends where it stands further out, and a key is recognised, once its colon
has been seen, at the place where it began. -/
namespace JudgedLint.Yaml

inductive Token where
  | directive (name : String) (version : Option (Nat × Nat)) (tag : Option (String × String))
  | documentStart
  | documentEnd
  | streamEnd
  | blockSequenceStart
  | blockMappingStart
  | blockEnd
  | flowSequenceStart
  | flowSequenceEnd
  | flowMappingStart
  | flowMappingEnd
  | blockEntry
  | flowEntry
  | key
  | value
  | alias (name : String)
  | anchor (name : String)
  | tag (handle : Option String) (suffix : String)
  | scalar (text : String) (style : Style)
  deriving DecidableEq, Repr, Inhabited

structure KeyPlace where
  token : Nat
  /-- Only a key can stand here. -/
  required : Bool
  index : Nat
  line : Nat
  column : Nat

structure Lexer where
  cursor : Cursor
  tokens : Array Token
  flow : Int
  indent : Int
  indents : List Int
  keyAllowed : Bool
  /-- For each depth of flow collections, the place at which a key may have begun. -/
  keys : List (Int × KeyPlace)

namespace Lexer

def start (cs : List Char) : Lexer := ⟨Cursor.start cs, #[], 0, -1, [], true, []⟩

def emit (l : Lexer) (t : Token) : Lexer := { l with tokens := l.tokens.push t }

def take (l : Lexer) (n : Nat) (t : Token) : Lexer :=
  { l with cursor := l.cursor.forward n, tokens := l.tokens.push t }

def inFlow (l : Lexer) : Bool := l.flow != 0

def unwind (column : Int) (l : Lexer) : Lexer :=
  if l.inFlow then l
  else
    let ended := (l.indent :: l.indents).takeWhile (column < ·)
    let left := (l.indent :: l.indents).drop ended.length
    { l with
      tokens := l.tokens ++ ended.map fun _ => Token.blockEnd
      indent := left.headD (-1)
      indents := left.drop 1 }

/-- Starts a block at the column if it stands further in; says whether it does. -/
def deepen (column : Int) (l : Lexer) : Bool × Lexer :=
  if l.indent < column then (true, { l with indent := column, indents := l.indent :: l.indents })
  else (false, l)

def dropKey (l : Lexer) : Except Fault Lexer :=
  match l.keys.lookup l.flow with
  | none => .ok l
  | some k =>
    if k.required then .error .malformed
    else .ok { l with keys := l.keys.filter (·.1 != l.flow) }

/-- Gives up places on other lines and places too far back. -/
def dropStaleKeys (l : Lexer) : Except Fault Lexer :=
  let stale (k : KeyPlace) : Bool := k.line != l.cursor.line || 1024 < l.cursor.index - k.index
  if l.keys.any fun k => stale k.2 && k.2.required then .error .malformed
  else .ok { l with keys := l.keys.filter fun k => !stale k.2 }

def saveKey (l : Lexer) : Except Fault Lexer :=
  if !l.keyAllowed then .ok l
  else do
    let required := !l.inFlow && l.indent == l.cursor.column
    let l ← l.dropKey
    let place : KeyPlace :=
      ⟨l.tokens.size, required, l.cursor.index, l.cursor.line, l.cursor.column⟩
    return { l with keys := (l.flow, place) :: l.keys }

def skipToToken : Nat → Lexer → Lexer
  | 0, l => l
  | fuel + 1, l =>
    let c := l.cursor.skipWhile (· == ' ')
    let c := if c.peek == '#' then c.skipWhile (!isBreakOrEnd ·) else c
    if isBreak c.peek then
      let l := { l with cursor := c.lineBreak.2, keyAllowed := l.keyAllowed || !l.inFlow }
      skipToToken fuel l
    else { l with cursor := c }

def skipMark (l : Lexer) : Lexer :=
  if l.cursor.index == 0 && l.cursor.peek == '\uFEFF' then { l with cursor := l.cursor.next } else l

/-- The end of the document's blocks before a line that belongs to none. -/
def closeBlocks (l : Lexer) : Except Fault Lexer := do
  let l ← (l.unwind (-1)).dropKey
  return { l with keyAllowed := false }

def directiveName (c : Cursor) : Except Fault (String × Cursor) :=
  let (name, c) := c.spanWhile isNameChar
  if name.isEmpty || !isSpaceBreakOrEnd c.peek then .error .malformed
  else .ok (String.ofList name, c)

def versionNumber (c : Cursor) : Except Fault (Nat × Cursor) :=
  let (digits, c) := c.spanWhile Char.isDigit
  match Text.decimalNumber? digits with
  | none => .error .malformed
  | some n => .ok (n, c)

/-- The handle of a tag: one exclamation mark with a blank behind it, or two around a name. -/
def tagHandle (c : Cursor) : Except Fault (String × Cursor) :=
  if c.peek != '!' then .error .malformed
  else if c.peekAt 1 == ' ' then .ok ("!", c.next)
  else
    let (name, c) := c.next.spanWhile isNameChar
    if c.peek == '!' then .ok (String.ofList ('!' :: name ++ ['!']), c.next) else .error .malformed

def isUriChar (c : Char) : Bool :=
  isAsciiAlnum c || "-;/?:@&=+$,_.!~*()[]".toList.contains c || c.toNat == 39

def uriBytes : Nat → Cursor → Except Fault (List UInt8 × Cursor)
  | 0, c => .ok ([], c)
  | fuel + 1, c =>
    if c.peek != '%' then .ok ([], c)
    else
      match c.rest.drop 1 with
      | a :: b :: _ =>
        match Text.hexNumber? [a, b] with
        | none => .error .malformed
        | some n => do
          let (more, c) ← uriBytes fuel (c.forward 3)
          return (UInt8.ofNat n :: more, c)
      | _ => .error .malformed

def tagUri : Nat → Cursor → Except Fault (List Char × Cursor)
  | 0, c => .ok ([], c)
  | fuel + 1, c =>
    let (text, c) := c.spanWhile isUriChar
    if c.peek == '%' then do
      let (bytes, c) ← uriBytes (c.rest.length + 1) c
      match Text.utf8Decode bytes with
      | .error _ => throw .malformed
      | .ok s =>
        let (more, c) ← tagUri fuel c
        return (text ++ s.toList ++ more, c)
    else .ok (text, c)

def tagSuffix (c : Cursor) : Except Fault (String × Cursor) := do
  let (text, c) ← tagUri (c.rest.length + 1) c
  if text.isEmpty then throw .malformed else return (String.ofList text, c)

def directive (c : Cursor) : Except Fault (Token × Cursor) := do
  let (name, c) ← directiveName c.next
  let (token, c) ← (if name == "YAML" then do
      let (major, c) ← versionNumber (c.skipWhile (· == ' '))
      if c.peek != '.' then throw .malformed
      let (minor, c) ← versionNumber c.next
      if !isSpaceBreakOrEnd c.peek then throw .malformed
      return (Token.directive name (some (major, minor)) none, c)
    else if name == "TAG" then do
      let (handle, c) ← tagHandle (c.skipWhile (· == ' '))
      if c.peek != ' ' then throw .malformed
      let (lead, c) ← tagSuffix (c.skipWhile (· == ' '))
      if !isSpaceBreakOrEnd c.peek then throw .malformed
      return (Token.directive name none (some (handle, lead)), c)
    else
      return (Token.directive name none none, c.skipWhile (!isBreakOrEnd ·))
    : Except Fault (Token × Cursor))
  let c ← Scalar.ignoredLine c
  return (token, c)

def anchorName (c : Cursor) : Except Fault (String × Cursor) :=
  let (name, c) := c.next.spanWhile isNameChar
  if name.isEmpty then .error .malformed
  else if isGap c.peek || "?:,]\x7d%@".toList.contains c.peek || c.peek.toNat == 96 then
    .ok (String.ofList name, c)
  else .error .malformed

/-- Whether an exclamation mark follows before the next blank. -/
def hasHandle (cs : List Char) : Bool := (cs.takeWhile (!isSpaceBreakOrEnd ·)).contains '!'

def tagToken (c : Cursor) : Except Fault (Token × Cursor) := do
  let (token, c) ← (if c.peekAt 1 == '<' then do
      let (suffix, c) ← tagSuffix (c.forward 2)
      if c.peek != '>' then throw .malformed
      return (Token.tag none suffix, c.next)
    else if isGap (c.peekAt 1) then return (Token.tag none "!", c.next)
    else do
      let (handle, c) ← if hasHandle (c.rest.drop 1) then tagHandle c else pure ("!", c.next)
      let (suffix, c) ← tagSuffix c
      return (Token.tag (some handle) suffix, c)
    : Except Fault (Token × Cursor))
  if isSpaceBreakOrEnd c.peek then return (token, c) else throw .malformed

/-- Adds a token that a scan has found, behind which no key may begin. -/
def found (l : Lexer) (r : Token × Cursor) : Lexer :=
  { l with cursor := r.2, tokens := l.tokens.push r.1, keyAllowed := false }

def openFlow (t : Token) (l : Lexer) : Except Fault Lexer := do
  let l ← l.saveKey
  return { l with flow := l.flow + 1, keyAllowed := true }.take 1 t

def closeFlow (t : Token) (l : Lexer) : Except Fault Lexer := do
  let l ← l.dropKey
  return { l with flow := l.flow - 1, keyAllowed := false }.take 1 t

/-- Starts a block at the present column, if it stands further in, with the given token. -/
def openBlock (t : Token) (l : Lexer) : Except Fault Lexer :=
  if l.inFlow then .ok l
  else if !l.keyAllowed then .error .malformed
  else
    match l.deepen l.cursor.column with
    | (true, l) => .ok (l.emit t)
    | (false, l) => .ok l

def fetchBlockEntry (l : Lexer) : Except Fault Lexer := do
  let l ← l.openBlock .blockSequenceStart
  let l ← { l with keyAllowed := true }.dropKey
  return l.take 1 .blockEntry

def fetchKey (l : Lexer) : Except Fault Lexer := do
  let l ← l.openBlock .blockMappingStart
  let l ← { l with keyAllowed := !l.inFlow }.dropKey
  return l.take 1 .key

def fetchValue (l : Lexer) : Except Fault Lexer := do
  match l.keys.lookup l.flow with
  | some k =>
    let l := { l with keys := l.keys.filter (·.1 != l.flow) }
    let l := { l with tokens := l.tokens.insertIdxIfInBounds k.token .key, keyAllowed := false }
    let l :=
      if l.inFlow then l
      else
        match l.deepen k.column with
        | (true, l) => { l with tokens := l.tokens.insertIdxIfInBounds k.token .blockMappingStart }
        | (false, l) => l
    return l.take 1 .value
  | none =>
    let l ← l.openBlock .blockMappingStart
    let l ← { l with keyAllowed := !l.inFlow }.dropKey
    return l.take 1 .value

def startsPlain (inFlow : Bool) (ch after : Char) : Bool :=
  let isIndicator :=
    "-?:,[]\x7b\x7d#&*!|>\"%@".toList.contains ch || ch.toNat == 39 || ch.toNat == 96
  (!isGap ch && !isIndicator) ||
    (!isGap after && (ch == '-' || (!inFlow && (ch == '?' || ch == ':'))))

def fetch (l : Lexer) : Except Fault Lexer := do
  let l ← (l.skipMark.skipToToken (l.cursor.rest.length + 1)).dropStaleKeys
  let l := l.unwind l.cursor.column
  let c := l.cursor
  let ch := c.peek
  let atLineStart := c.column == 0
  let isSeparator := atLineStart && c.atSeparator
  let gapFollows := isGap (c.peekAt 1)
  if isEnd ch then
    let l ← l.closeBlocks
    return { l with keys := [] }.emit .streamEnd
  else if ch == '%' && atLineStart then
    let l ← l.closeBlocks
    return l.found (← directive c)
  else if ch == '-' && isSeparator then
    return (← l.closeBlocks).take 3 .documentStart
  else if ch == '.' && isSeparator then
    return (← l.closeBlocks).take 3 .documentEnd
  else if ch == '[' then l.openFlow .flowSequenceStart
  else if ch == '\x7b' then l.openFlow .flowMappingStart
  else if ch == ']' then l.closeFlow .flowSequenceEnd
  else if ch == '\x7d' then l.closeFlow .flowMappingEnd
  else if ch == ',' then
    let l ← { l with keyAllowed := true }.dropKey
    return l.take 1 .flowEntry
  else if ch == '-' && gapFollows then l.fetchBlockEntry
  else if ch == '?' && (l.inFlow || gapFollows) then l.fetchKey
  else if ch == ':' && (l.inFlow || gapFollows) then l.fetchValue
  else if ch == '*' then
    let (name, c) ← anchorName c
    return (← l.saveKey).found (.alias name, c)
  else if ch == '&' then
    let (name, c) ← anchorName c
    return (← l.saveKey).found (.anchor name, c)
  else if ch == '!' then
    let r ← tagToken c
    return (← l.saveKey).found r
  else if (ch == '|' || ch == '>') && !l.inFlow then
    let l ← { l with keyAllowed := true }.dropKey
    let (text, c) ← Scalar.block (ch == '>') l.indent c
    let style := if ch == '>' then Style.folded else Style.literal
    return { l with cursor := c }.emit (.scalar (String.ofList text) style)
  else if ch == '"' || ch.toNat == 39 then
    let l ← l.saveKey
    let (text, c) ← Scalar.quoted (ch == '"') c
    let style := if ch == '"' then Style.double else Style.single
    return l.found (.scalar (String.ofList text) style, c)
  else if startsPlain l.inFlow ch (c.peekAt 1) then
    let l ← l.saveKey
    let (text, broken, c) := Scalar.plain l.inFlow l.indent c
    return { l with cursor := c, keyAllowed := broken }.emit (.scalar (String.ofList text) .plain)
  else throw .malformed

def run : Nat → Lexer → Except Fault (List Token)
  | 0, _ => .error .malformed
  | fuel + 1, l => do
    let l ← l.fetch
    if l.tokens.back? == some .streamEnd then return l.tokens.toList else run fuel l

end Lexer

def tokens (s : String) : Except Fault (List Token) :=
  let cs := s.toList
  if cs.all isAllowed then Lexer.run (cs.length + 2) (Lexer.start cs) else .error .malformed

end JudgedLint.Yaml
