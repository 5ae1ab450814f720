import JudgedLint.Datum
import JudgedLint.Yaml.Node
import JudgedLint.Text.Digit
import JudgedLint.Text.Line
import JudgedLint.Text.LowerCase
import JudgedLint.Decimal.Reading

/-! The data that the nodes of a document stand for.

Collections are filled level by level, so of several faults the one nearest to the root counts, and
of those the first. Merge keys bring the entries of other mappings in front of a mapping's own. -/
namespace JudgedLint.Yaml

open Calendar (Date Moment)

/-- A fault and the level at which it arises. -/
abbrev Located := Option (Nat × Fault)

/-- The fault nearer to the root; of two on one level the first. -/
def Located.first : Located → Located → Located
  | none, b => b
  | a, none => a
  | some a, some b => if b.1 < a.1 then some b else some a

def negate (negative : Bool) (n : Int) : Int := if negative then -n else n

def splitSign (cs : List Char) : Bool × List Char :=
  match cs with
  | '-' :: rest => (true, rest)
  | '+' :: rest => (false, rest)
  | _ => (false, cs)

def baseLetter? (base : Nat) : Option Char :=
  if base == 2 then some 'b' else if base == 8 then some 'o' else if base == 16 then some 'x'
  else none

def dropBase (base : Nat) (cs : List Char) : List Char :=
  match cs with
  | '0' :: letter :: digits => if some letter.toLower == baseLetter? base then digits else cs
  | _ => cs

/-- A text as the readers of numbers see it: no space at its ends, and every digit in ASCII. -/
def asciiNumeral (cs : List Char) : List Char :=
  (Text.trimSpace cs).map fun c =>
    match Text.digitValue? c with
    | some d => Text.hexDigit d
    | none => c

/-- A whole number in digits of a base, a sign and the base's letter in front allowed. -/
def integerIn (base : Nat) (cs : List Char) : Except Fault Int :=
  let (negative, digits) := splitSign (asciiNumeral cs)
  let digit (c : Char) : Option Nat := (Text.hexValue? c).filter (· < base)
  let body := dropBase base digits
  let run := body.takeWhile fun c => (digit c).isSome
  if base == 10 && 4300 < run.length then .error (.longInteger run.length)
  else
    match Text.numeral? digit base body with
    | none => .error (.integer base (String.ofList cs))
    | some n => .ok (negate negative n)

/-- Groups between colons, each worth sixty of the next. -/
def sexagesimal (groups : List Int) : Int := groups.foldl (fun acc g => acc * 60 + g) 0

def integerOf (s : String) : Except Fault Int :=
  let cs := s.toList.filter (· != '_')
  let (negative, body) := splitSign cs
  let signed (r : Except Fault Int) : Except Fault Int := r.map (negate negative)
  match body with
  | [] => .error .emptyNumber
  | ['0'] => .ok 0
  | '0' :: 'b' :: digits => signed (integerIn 2 digits)
  | '0' :: 'x' :: digits => signed (integerIn 16 digits)
  | '0' :: _ => signed (integerIn 8 body)
  | _ =>
    if body.contains ':' then
      signed (((Text.splitOnChar ':' body).mapM (integerIn 10)).map sexagesimal)
    else signed (integerIn 10 body)

/-- The sum of groups, the last first: it counts once, the one before it sixty times, and so on. -/
def sexagesimalFloat : Nat → Float → List Float → Except Fault Float
  | _, total, [] => .ok total
  | unit, total, g :: rest =>
    let scale := Decimal.floatOfInt unit
    if scale.isInf then .error .largeInteger
    else sexagesimalFloat (60 * unit) (total + g * scale) rest

def floatOf (s : String) : Except Fault Float :=
  let cs := (Text.lower s).toList.filter (· != '_')
  if cs.isEmpty then .error .emptyNumber
  else
    let (negative, body) := splitSign cs
    let sign (x : Float) : Float := if negative then -x else x
    let parse (t : List Char) : Except Fault Float :=
      match Decimal.floatOfNumeral? (asciiNumeral t) with
      | some x => .ok x
      | none => .error (.float (String.ofList t))
    if body == ".inf".toList then .ok (sign (1.0 / 0.0))
    else if body == ".nan".toList then .ok (0.0 / 0.0)
    else if body.contains ':' then do
      let groups ← (Text.splitOnChar ':' body).mapM parse
      return sign (← sexagesimalFloat 1 0.0 groups.reverse)
    else (parse body).map sign

def truthOf (s : String) : Except Fault Bool :=
  let word := Text.lower s
  match boolWords.lookup word with
  | some b => .ok b
  | none => .error (.truthWord word)

def microsOf (digits : List Char) : Nat :=
  let six := digits.take 6
  (Text.decimalNumber? (six ++ List.replicate (6 - six.length) '0')).getD 0

def checkMoment (m : Moment) : Except Fault Unit := do
  if m.date.year < 1 then throw (.calendar s!"year {m.date.year} is out of range")
  if m.date.month < 1 || 12 < m.date.month then throw (.calendar "month must be in 1..12")
  if !m.date.isValid then throw (.calendar "day is out of range for month")
  if 23 < m.hour then throw (.calendar "hour must be in 0..23")
  if 59 < m.minute then throw (.calendar "minute must be in 0..59")
  if 59 < m.second then throw (.calendar "second must be in 0..59")

def timestampOf (s : String) : Except Fault Datum := do
  match momentText? (dropLastBreak s) with
  | none => throw .notMoment
  | some t =>
    let date : Date := ⟨t.year, t.month, t.day⟩
    match t.time with
    | none =>
      checkMoment ⟨date, 0, 0, 0, 0, none⟩
      return .date date
    | some (hour, minute, second, fraction) =>
      match t.offset with
      | some o => if 86400 ≤ o.natAbs then throw (.offset o)
      | none => pure ()
      let m : Moment := ⟨date, hour, minute, second, microsOf fraction, t.offset⟩
      checkMoment m
      return .moment m

def base64Digit? (c : Char) : Option Nat :=
  if 'A' ≤ c && c ≤ 'Z' then some (c.toNat - 65)
  else if 'a' ≤ c && c ≤ 'z' then some (c.toNat - 71)
  else if c.isDigit then some (c.toNat + 4)
  else if c == '+' then some 62
  else if c == '/' then some 63
  else none

/-- Decodes base 64; characters outside the alphabet are passed over. `place` counts the digits of
the group begun, `left` holds the bits over from the last digit, `pads` the padding signs in a
row. -/
def base64From (place left pads : Nat) : List Char → Option (List UInt8)
  | [] => if place == 0 then some [] else none
  | c :: rest =>
    if c == '=' then
      if 2 ≤ place then
        if 4 ≤ place + pads + 1 then some [] else base64From place left (pads + 1) rest
      else base64From place left pads rest
    else
      match base64Digit? c with
      | none => base64From place left pads rest
      | some d =>
        if place == 0 then base64From 1 d 0 rest
        else if place == 1 then
          (base64From 2 (d % 16) 0 rest).map (UInt8.ofNat (left * 4 + d / 16) :: ·)
        else if place == 2 then
          (base64From 3 (d % 4) 0 rest).map (UInt8.ofNat (left * 16 + d / 4) :: ·)
        else (base64From 0 0 0 rest).map (UInt8.ofNat (left * 64 + d) :: ·)

def bytesOf (s : String) : Except Fault (List UInt8) :=
  let cs := s.toList
  if cs.any fun c => 128 ≤ c.toNat then .error .malformed
  else
    match base64From 0 0 0 cs with
    | some bs => .ok bs
    | none => .error .malformed

def scalarDatum (tag : Tag) (s : String) : Except Fault Datum :=
  match tag with
  | .null => .ok .null
  | .bool => (truthOf s).map .bool
  | .int => (integerOf s).map .int
  | .float => (floatOf s).map .float
  | .binary => (bytesOf s).map .bytes
  | .timestamp => timestampOf s
  | .str => .ok (.str s)
  | _ => .error .malformed

/-- The datum of a node of the given type that has the given text. A moment must be written by the
node itself. -/
def scalarOf (tag : Tag) (node : Option Node) (text : String) : Except Fault Datum :=
  match tag, node with
  | .timestamp, some (.mapping ..) => .error .mappingForMoment
  | _, _ => scalarDatum tag text

namespace Document

def isMergeKey (nodes : Array Node) (id : Nat) : Bool :=
  match nodes[id]? with
  | some (.scalar tag _) => tag == .merge
  | some (.sequence tag _) => tag == .merge
  | some (.mapping tag _) => tag == .merge
  | none => false

mutual
/-- The entries of a mapping with those that merge keys bring in. `busy` are the mappings whose
entries are being gathered. -/
def flatPairs (nodes : Array Node) : Nat → List Nat → Nat → Except Fault (List (Nat × Nat))
  | 0, _, _ => .ok []
  | fuel + 1, busy, id =>
    match nodes[id]? with
    | some (.mapping _ pairs) =>
      let own := pairs.filter (!isMergeKey nodes ·.1)
      if busy.contains id then .ok own
      else do
        let merged ← mergedPairs nodes fuel (id :: busy)
          ((pairs.filter (isMergeKey nodes ·.1)).map (·.2))
        return merged ++ own
    | _ => .error .malformed

/-- The entries that the values of merge keys bring: a mapping its own, a sequence of mappings those
of its items, the last one first. -/
def mergedPairs (nodes : Array Node) :
    Nat → List Nat → List Nat → Except Fault (List (Nat × Nat))
  | 0, _, _ => .ok []
  | _, _, [] => .ok []
  | fuel + 1, busy, id :: rest => do
    let here ← (match nodes[id]? with
      | some (.mapping ..) => flatPairs nodes fuel busy id
      | some (.sequence _ items) => (itemPairs nodes fuel busy items).map (·.reverse.flatten)
      | _ => .error .malformed : Except Fault (List (Nat × Nat)))
    return here ++ (← mergedPairs nodes fuel busy rest)

def itemPairs (nodes : Array Node) :
    Nat → List Nat → List Nat → Except Fault (List (List (Nat × Nat)))
  | 0, _, _ => .ok []
  | _, _, [] => .ok []
  | fuel + 1, busy, id :: rest => do
    let here ← flatPairs nodes fuel busy id
    return here :: (← itemPairs nodes fuel busy rest)
end

/-- The text that a mapping stands for where a scalar is wanted: the value of its key `=`. -/
def defaultText (nodes : Array Node) : Nat → Nat → Option String
  | 0, _ => none
  | fuel + 1, id =>
    match nodes[id]? with
    | some (.scalar _ text) => some text
    | some (.mapping _ pairs) =>
      let isDefault (p : Nat × Nat) : Bool :=
        match nodes[p.1]? with
        | some (.scalar .value _) => true
        | _ => false
      (pairs.find? isDefault).bind fun p => defaultText nodes fuel p.2
    | _ => none

/-- Data already made, by node, with the faults found in them. -/
abbrev Made := Array (Option Datum)

structure Work where
  made : Made
  fault : Located
  /-- Some node holds itself. -/
  cyclic : Bool
  /-- The keys for defaults that are keys of mappings, with the levels of these. -/
  keyed : List (Nat × Nat)

abbrev Building := StateM Work

def report (level : Nat) (f : Fault) : Building Unit :=
  modify fun w => { w with fault := w.fault.first (some (level, f)) }

/-- Whether values of a type are filled in after they have been made. -/
def isCollection : Tag → Bool
  | .omap | .pairs | .set | .seq | .map => true
  | _ => false

def mark (shared : Bool) (id : Nat) (d : Datum) : Datum :=
  if shared then
    match d with
    | .list _ | .set _ | .map _ | .date _ | .moment _ => .labelled id d
    | d => d
  else d

mutual
/-- The datum of a node. `level` is the level of the collection that mentions it, `path` the nodes
on the way to it. -/
def build (nodes : Array Node) (shared : Bool) :
    Nat → List Nat → Nat → Nat → Building Datum
  | 0, _, _, _ => return .null
  | fuel + 1, path, level, id => do
    if let some (some d) := (← get).made[id]? then return d
    let tag := match nodes[id]? with
      | some (.scalar tag _) => tag
      | some (.sequence tag _) => tag
      | some (.mapping tag _) => tag
      | none => .null
    -- a key for defaults stays a text wherever it is mentioned afterwards
    if let some (.scalar .value text) := nodes[id]? then
      if (← get).keyed.any fun p => p.1 == id && p.2 ≤ level then return .str text
    if path.contains id then
      modify fun w => { w with cyclic := true }
      return .back id (tag == .map || tag == .set)
    let d ←
      if isCollection tag then buildCollection nodes shared fuel (id :: path) (level + 1) tag id
      else
        -- where a scalar is wanted, a mapping may stand for the value of its key for defaults
        match defaultText nodes (nodes.size + 1) id, nodes[id]? with
        | none, _ => do report level .malformed; return .null
        | some text, node =>
          match scalarOf tag node text with
          | .ok d => pure d
          | .error f => do report level f; return .null
    let d := mark shared id d
    modify fun w => { w with made := w.made.setIfInBounds id (some d) }
    return d

def buildCollection (nodes : Array Node) (shared : Bool) :
    Nat → List Nat → Nat → Tag → Nat → Building Datum
  | 0, _, _, _, _ => return .null
  | fuel + 1, path, level, tag, id => do
    match tag with
    | .seq =>
      match nodes[id]? with
      | some (.sequence _ items) => return .list (← buildItems nodes shared fuel path level items)
      | _ => report level .malformed; return .list []
    | .map =>
      let bound := 3 * fuel
      match flatPairs nodes bound [] id with
      | .ok pairs => return .map (← buildPairs nodes shared fuel path level pairs [])
      | .error f => report level f; return .map []
    | .set =>
      let bound := 3 * fuel
      match flatPairs nodes bound [] id with
      | .ok pairs =>
        let entries ← buildPairs nodes shared fuel path level pairs []
        return .set (entries.map (·.1))
      | .error f => report level f; return .set []
    | _ =>
      -- a list of pairs, each written as a mapping with a single entry
      match nodes[id]? with
      | some (.sequence _ items) =>
        return .list (← buildSingles nodes shared fuel path level items)
      | _ => report level .malformed; return .list []

def buildItems (nodes : Array Node) (shared : Bool) :
    Nat → List Nat → Nat → List Nat → Building (List Datum)
  | 0, _, _, _ => return []
  | _, _, _, [] => return []
  | fuel + 1, path, level, id :: rest => do
    let d ← build nodes shared fuel path level id
    return d :: (← buildItems nodes shared fuel path level rest)

def buildSingles (nodes : Array Node) (shared : Bool) :
    Nat → List Nat → Nat → List Nat → Building (List Datum)
  | 0, _, _, _ => return []
  | _, _, _, [] => return []
  | fuel + 1, path, level, id :: rest => do
    match nodes[id]? with
    | some (.mapping _ [(k, v)]) =>
      let key ← build nodes shared fuel path level k
      let value ← build nodes shared fuel path level v
      return .list [key, value] :: (← buildSingles nodes shared fuel path level rest)
    | _ => report level .malformed; return []

def buildPairs (nodes : Array Node) (shared : Bool) :
    Nat → List Nat → Nat → List (Nat × Nat) → List (Datum × Datum) →
      Building (List (Datum × Datum))
  | 0, _, _, _, done => return done
  | _, _, _, [], done => return done
  | fuel + 1, path, level, (k, v) :: rest, done => do
    -- the key for defaults is an ordinary text here
    let key ← match nodes[k]? with
      | some (.scalar .value text) => do
        modify fun w => { w with keyed := (k, level) :: w.keyed }
        pure (.str text)
      | _ => build nodes shared fuel path level k
    if key.unhashable?.isSome then report level .malformed
    let value ← build nodes shared fuel path level v
    buildPairs nodes shared fuel path level rest (Datum.insert key value done)
end

mutual
/-- Puts the datum meant in the place of each reference back to it; the references inside it stay.
What looks only at a node's own entries then sees no difference. -/
def unfold (made : Made) : Datum → Datum
  | .back id isMap => ((made[id]?).join).getD (.back id isMap)
  | .labelled id d => .labelled id (unfold made d)
  | .list items => .list (unfoldItems made items)
  | .map entries => .map (unfoldEntries made entries)
  | d => d

def unfoldItems (made : Made) : List Datum → List Datum
  | [] => []
  | d :: rest => unfold made d :: unfoldItems made rest

def unfoldEntries (made : Made) : List (Datum × Datum) → List (Datum × Datum)
  | [] => []
  | (k, d) :: rest => (k, unfold made d) :: unfoldEntries made rest
end

/-- The datum of a document; an empty document is nothing. -/
def datum (d : Document) : Except Fault Datum :=
  match d.root with
  | none => .ok .null
  | some root =>
    let size := d.nodes.foldl (fun n node => n + 4 + match node with
      | .scalar _ _ => 0
      | .sequence _ items => items.length
      | .mapping _ pairs => pairs.length) 0
    let fuel := 4 * (size + 1) * (size + 1)
    let start : Work := ⟨Array.replicate d.nodes.size none, none, false, []⟩
    let (value, w) := (build d.nodes d.shared fuel [] 0 root).run start
    match w.fault with
    | some (_, f) => .error f
    | none => .ok (if w.cyclic then unfold w.made value else value)

end Document

def read (s : String) : Except Fault Datum := do
  (← Document.ofText s).datum

end JudgedLint.Yaml
