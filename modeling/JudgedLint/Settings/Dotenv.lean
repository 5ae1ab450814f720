import JudgedLint.Json.Basic
import JudgedLint.Text.Blank
import JudgedLint.Text.Search

/-! Files of environment variables: a name and a value per line, values bare or in quotes, with
references to other variables in braces behind a dollar sign. -/
namespace JudgedLint.Settings

/-- A line's name and value; a name without an equals sign has no value. -/
abbrev Binding := String × Option String

namespace Dotenv

def isInlineBlank (c : Char) : Bool := Text.isBlank c && c != '\n' && c != '\r'

def isLineEnd (c : Char) : Bool := c == '\n' || c == '\r'

def skipInline (cs : List Char) : List Char := cs.dropWhile isInlineBlank

/-- The word `export` with a blank behind it may stand in front of a name. -/
def skipExport (cs : List Char) : List Char :=
  if "export".toList.isPrefixOf cs then
    let rest := cs.drop 6
    if (rest.head?.map isInlineBlank).getD false then skipInline rest else cs
  else cs

/-- Text up to a quote that no backslash precedes, and what follows the quote. A backslash that
another one escapes does not count. -/
def quotedPart? (quote : Char) : List Char → Option (List Char × List Char)
  | [] => none
  | '\\' :: c :: rest =>
    if c == '\\' then (quotedPart? quote rest).map fun r => ('\\' :: c :: r.1, r.2)
    else if c == quote then
      -- an escaped quote belongs to the text if another quote ends it
      match quotedPart? quote rest with
      | some (part, after) => some ('\\' :: c :: part, after)
      | none => some (['\\'], rest)
    else (quotedPart? quote (c :: rest)).map fun r => ('\\' :: r.1, r.2)
  | c :: rest =>
    if c == quote then some ([], rest) else (quotedPart? quote rest).map fun r => (c :: r.1, r.2)

def escapeOf (double : Bool) (c : Char) : Option Char :=
  if c == '\\' || c.toNat == 39 then some c
  else if !double then none
  else if c == '"' then some c
  else if c == 'a' then some (Char.ofNat 7)
  else if c == 'b' then some (Char.ofNat 8)
  else if c == 'f' then some (Char.ofNat 12)
  else if c == 'n' then some '\n'
  else if c == 'r' then some '\r'
  else if c == 't' then some '\t'
  else if c == 'v' then some (Char.ofNat 11)
  else none

def unescape (double : Bool) : List Char → List Char
  | '\\' :: c :: rest =>
    match escapeOf double c with
    | some e => e :: unescape double rest
    | none => '\\' :: unescape double (c :: rest)
  | c :: rest => c :: unescape double rest
  | [] => []

/-- The text before blanks with a number sign behind them. -/
def dropComment : List Char → List Char
  | [] => []
  | c :: rest =>
    if Text.isBlank c && (rest.dropWhile Text.isBlank).head? == some '#' then []
    else c :: dropComment rest

/-- A value and what follows it; nothing if a quote is not closed. -/
def value? (cs : List Char) : Option (String × List Char) :=
  match cs with
  | [] => some ("", [])
  | c :: rest =>
    if c == '"' || c.toNat == 39 then
      (quotedPart? c rest).map fun r => (String.ofList (unescape (c == '"') r.1), r.2)
    else
      let line := cs.takeWhile (!isLineEnd ·)
      some (Text.trimEnd (String.ofList (dropComment line)), cs.dropWhile (!isLineEnd ·))

/-- A name, in single quotes or bare; `some none` for a comment. -/
def key? (cs : List Char) : Option (Option String × List Char) :=
  match cs with
  | [] => none
  | c :: rest =>
    if c == '#' then some (none, cs)
    else if c.toNat == 39 then
      match rest.span (·.toNat != 39) with
      | ([], _) => none
      | (_, []) => none
      | (name, _ :: after) => some (some (String.ofList name), after)
    else
      let isNameChar (c : Char) : Bool := !(c == '=' || c == '#' || Text.isBlank c)
      let name := cs.takeWhile isNameChar
      if name.isEmpty then none else some (some (String.ofList name), cs.dropWhile isNameChar)

def lineEnd? (cs : List Char) : Option (List Char) :=
  let comment := skipInline cs
  let cs := if comment.head? == some '#' then comment.dropWhile (!isLineEnd ·) else cs
  match skipInline cs with
  | [] => some []
  | c :: rest => if isLineEnd c then some rest else none

/-- One line's binding, or the place where reading it failed. -/
def binding (cs : List Char) : Except (List Char) (Option Binding × List Char) := do
  let cs := skipExport cs
  match key? cs with
  | none => throw cs
  | some (key, rest) =>
    let rest := skipInline rest
    let (value, rest) ← (match rest with
      | '=' :: after =>
        match value? (skipInline after) with
        | none => throw (skipInline after)
        | some (v, rest) => return (some v, rest)
      | _ => return (none, rest) : Except (List Char) (Option String × List Char))
    match lineEnd? rest with
    | none => throw rest
    | some after => return (key.map (·, value), after)

/-- The bindings of a text in order; lines that cannot be read are passed over. -/
def bindings : Nat → List Char → List Binding
  | 0, _ => []
  | fuel + 1, cs =>
    let cs := cs.dropWhile Text.isBlank
    if cs.isEmpty then []
    else
      match binding cs with
      | .ok (some b, rest) => b :: bindings fuel rest
      | .ok (none, rest) => bindings fuel rest
      | .error rest => bindings fuel ((rest.dropWhile (!isLineEnd ·)).drop 1)

/-- A reference at the start: the name, what it stands for if unset, and the rest. -/
def reference? (cs : List Char) : Option (String × String × List Char) :=
  match cs with
  | '$' :: '\x7b' :: rest =>
    let name := rest.takeWhile fun c => c != '\x7d' && c != ':'
    match rest.drop name.length with
    | '\x7d' :: after => some (String.ofList name, "", after)
    | ':' :: '-' :: more =>
      match more.span (· != '\x7d') with
      | (unset, _ :: after) => some (String.ofList name, String.ofList unset, after)
      | _ => none
    | _ => none
  | _ => none

def interpolate (look : String → Option String) : Nat → List Char → List Char
  | 0, cs => cs
  | _, [] => []
  | fuel + 1, c :: rest =>
    match reference? (c :: rest) with
    | some (name, unset, after) =>
      ((look name).getD unset).toList ++ interpolate look fuel after
    | none => c :: interpolate look fuel rest

/-- The bindings with references resolved: earlier lines first, then the environment. A later line
replaces an earlier one of the same name. -/
def resolve (env : List (String × String)) (bs : List Binding) : List Binding :=
  bs.foldl (fun done b =>
    let look (name : String) : Option String :=
      match done.lookup name with
      | some v => some (v.getD "")
      | none => env.lookup name
    let value := b.2.map fun v => String.ofList (interpolate look (v.length + 1) v.toList)
    Json.put b.1 value done) []

def read (env : List (String × String)) (text : String) : List Binding :=
  resolve env (bindings (text.length + 1) text.toList)

end Dotenv
end JudgedLint.Settings
