import JudgedLint.Yaml.Tag
import JudgedLint.Yaml.Token

/-! The nodes of a document: scalars, sequences and mappings, each known by its number. An alias is
another mention of the number of the node that it names, so a node may even hold itself. -/
namespace JudgedLint.Yaml

inductive Node where
  | scalar (tag : Tag) (text : String)
  | sequence (tag : Tag) (items : List Nat)
  | mapping (tag : Tag) (pairs : List (Nat × Nat))
  deriving Inhabited

structure Document where
  nodes : Array Node
  root : Option Nat
  /-- Whether some node is mentioned more than once. -/
  shared : Bool

namespace Document

structure Progress where
  tokens : List Token
  nodes : Array Node
  anchors : List (String × Nat)
  handles : List (String × String)
  shared : Bool

abbrev Reading := StateT Progress (Except Fault)

def peek : Reading Token := return (← get).tokens.headD .streamEnd

def advance : Reading Unit := modify fun p => { p with tokens := p.tokens.drop 1 }

def add (n : Node) : Reading Nat := do
  let p ← get
  set { p with nodes := p.nodes.push n }
  return p.nodes.size

def fill (id : Nat) (n : Node) : Reading Unit :=
  modify fun p => { p with nodes := p.nodes.setIfInBounds id n }

def emptyScalar : Reading Nat := add (.scalar .null "")

/-- Gives a node a name; each name can be given once. -/
def register (anchor : Option String) (id : Nat) : Reading Unit := do
  match anchor with
  | none => return
  | some name => modify fun p => { p with anchors := (name, id) :: p.anchors }

def isFresh (anchor : Option String) : Reading Bool := do
  match anchor with
  | none => return true
  | some name => return ((← get).anchors.lookup name).isNone

/-- Anchor and tag in front of a node, in either order. -/
def properties : Reading (Option String × Option (Option String × String)) := do
  match ← peek with
  | .anchor name =>
    advance
    match ← peek with
    | .tag handle suffix => advance; return (some name, some (handle, suffix))
    | _ => return (some name, none)
  | .tag handle suffix =>
    advance
    match ← peek with
    | .anchor name => advance; return (some name, some (handle, suffix))
    | _ => return (none, some (handle, suffix))
  | _ => return (none, none)

def fullTag (t : Option String × String) : Reading String := do
  match t.1 with
  | none => return t.2
  | some handle =>
    match (← get).handles.lookup handle with
    | none => throw .malformed
    | some lead => return lead ++ t.2

/-- The type of a scalar: its tag, or what it looks like if it is plain. -/
def scalarTag (tag : Option String) (style : Style) (text : String) : Tag :=
  match tag with
  | none => if style == .plain then Tag.ofPlain text else .str
  | some "!" => Tag.ofLooks text
  | some full => Tag.ofName full

def collectionTag (tag : Option String) (default : Tag) : Tag :=
  match tag with
  | none => default
  | some "!" => default
  | some full => Tag.ofName full

def isOneOf (ts : List Token) : Reading Bool := return ts.contains (← peek)

mutual
/-- A node. Blocks are possible in a block, and a sequence may go without indentation as the value
or key of a mapping. -/
def node (inBlock indentless : Bool) : Nat → Reading Nat
  | 0 => throw .malformed
  | fuel + 1 => do
    match ← peek with
    | .alias name =>
      advance
      match (← get).anchors.lookup name with
      | none => throw .malformed
      | some id =>
        modify fun p => { p with shared := true }
        return id
    | _ =>
      let (anchor, tag) ← properties
      let tag ← tag.mapM fullTag
      let begin (n : Node) : Reading Nat := do
        if !(← isFresh anchor) then throw .malformed
        let id ← add n
        register anchor id
        return id
      let token ← peek
      if indentless && token == .blockEntry then
        let tag := collectionTag tag .seq
        let id ← begin (.sequence tag [])
        let items ← indentlessItems fuel
        fill id (.sequence tag items)
        return id
      match token with
      | .scalar text style =>
        advance
        begin (.scalar (scalarTag tag style text) text)
      | .flowSequenceStart =>
        let tag := collectionTag tag .seq
        let id ← begin (.sequence tag [])
        advance
        fill id (.sequence tag (← flowItems fuel true))
        return id
      | .flowMappingStart =>
        let tag := collectionTag tag .map
        let id ← begin (.mapping tag [])
        advance
        fill id (.mapping tag (← flowPairs fuel true))
        return id
      | _ =>
        if inBlock && token == .blockSequenceStart then
          let tag := collectionTag tag .seq
          let id ← begin (.sequence tag [])
          advance
          fill id (.sequence tag (← blockItems fuel))
          return id
        else if inBlock && token == .blockMappingStart then
          let tag := collectionTag tag .map
          let id ← begin (.mapping tag [])
          advance
          fill id (.mapping tag (← blockPairs fuel))
          return id
        else if anchor.isSome || tag.isSome then
          begin (.scalar (scalarTag tag .plain "") "")
        else throw .malformed

def blockItems : Nat → Reading (List Nat)
  | 0 => throw .malformed
  | fuel + 1 => do
    match ← peek with
    | .blockEntry =>
      advance
      let id ← if ← isOneOf [.blockEntry, .blockEnd] then emptyScalar else node true false fuel
      return id :: (← blockItems fuel)
    | .blockEnd => advance; return []
    | _ => throw .malformed

/-- Items of a sequence that stands at the column of the mapping around it. -/
def indentlessItems : Nat → Reading (List Nat)
  | 0 => throw .malformed
  | fuel + 1 => do
    match ← peek with
    | .blockEntry =>
      advance
      let id ←
        if ← isOneOf [.blockEntry, .key, .value, .blockEnd] then emptyScalar
        else node true false fuel
      return id :: (← indentlessItems fuel)
    | _ => return []

def blockPairs : Nat → Reading (List (Nat × Nat))
  | 0 => throw .malformed
  | fuel + 1 => do
    match ← peek with
    | .key =>
      advance
      let k ← if ← isOneOf [.key, .value, .blockEnd] then emptyScalar else node true true fuel
      let v ← blockValue fuel
      return (k, v) :: (← blockPairs fuel)
    | .blockEnd => advance; return []
    | _ => throw .malformed

def blockValue : Nat → Reading Nat
  | 0 => throw .malformed
  | fuel + 1 => do
    match ← peek with
    | .value =>
      advance
      if ← isOneOf [.key, .value, .blockEnd] then emptyScalar else node true true fuel
    | _ => emptyScalar

/-- Items of a flow sequence; one of them may be a single pair. -/
def flowItems : Nat → Bool → Reading (List Nat)
  | 0, _ => throw .malformed
  | fuel + 1, first => do
    if (← peek) == .flowSequenceEnd then advance; return []
    if !first then
      if (← peek) == .flowEntry then advance else throw .malformed
    match ← peek with
    | .key =>
      let id ← add (.mapping .map [])
      advance
      let k ←
        if ← isOneOf [.value, .flowEntry, .flowSequenceEnd] then emptyScalar
        else node false false fuel
      let v ← flowValue fuel .flowSequenceEnd
      fill id (.mapping .map [(k, v)])
      return id :: (← flowItems fuel false)
    | .flowSequenceEnd => advance; return []
    | _ =>
      let id ← node false false fuel
      return id :: (← flowItems fuel false)

def flowValue : Nat → Token → Reading Nat
  | 0, _ => throw .malformed
  | fuel + 1, ending => do
    match ← peek with
    | .value =>
      advance
      if ← isOneOf [.flowEntry, ending] then emptyScalar else node false false fuel
    | _ => emptyScalar

/-- Keys and values of a flow mapping; a key alone has an empty value. -/
def flowPairs : Nat → Bool → Reading (List (Nat × Nat))
  | 0, _ => throw .malformed
  | fuel + 1, first => do
    if (← peek) == .flowMappingEnd then advance; return []
    if !first then
      if (← peek) == .flowEntry then advance else throw .malformed
    match ← peek with
    | .key =>
      advance
      let k ←
        if ← isOneOf [.value, .flowEntry, .flowMappingEnd] then emptyScalar
        else node false false fuel
      let v ← flowValue fuel .flowMappingEnd
      return (k, v) :: (← flowPairs fuel false)
    | .flowMappingEnd => advance; return []
    | _ =>
      let k ← node false false fuel
      let v ← emptyScalar
      return (k, v) :: (← flowPairs fuel false)
end

def commonHandles : List (String × String) := [("!", "!"), ("!!", commonTypes)]

/-- Directives in front of a document: each at most once, and the version must be one that is
understood. -/
def directives : Nat → Bool → Reading Unit
  | 0, _ => throw .malformed
  | fuel + 1, versionSeen => do
    match ← peek with
    | .directive _ (some (major, _)) _ =>
      if versionSeen || major != 1 then throw .malformed
      advance
      directives fuel true
    | .directive _ _ (some (handle, lead)) =>
      let p ← get
      if (p.handles.lookup handle).isSome then throw .malformed
      set { p with handles := p.handles ++ [(handle, lead)] }
      advance
      directives fuel versionSeen
    | .directive .. => advance; directives fuel versionSeen
    | _ => modify fun p => { p with handles := p.handles ++ commonHandles }

def skipDocumentEnds : Nat → Reading Unit
  | 0 => return
  | fuel + 1 => do
    if (← peek) == .documentEnd then
      advance
      skipDocumentEnds fuel

/-- The only document of a stream, or nothing for an empty stream. -/
def stream (fuel : Nat) : Reading (Option Nat) := do
  let finish (root : Nat) : Reading (Option Nat) := do
    skipDocumentEnds fuel
    if (← peek) == .streamEnd then return some root else throw .malformed
  let isExplicit := match ← peek with
    | .directive .. | .documentStart | .streamEnd => true
    | _ => false
  if !isExplicit then
    modify fun p => { p with handles := commonHandles }
    finish (← node true false fuel)
  else if (← peek) == .streamEnd then return none
  else
    directives fuel false
    if (← peek) != .documentStart then throw .malformed
    advance
    let isEmpty := match ← peek with
      | .directive .. | .documentStart | .documentEnd | .streamEnd => true
      | _ => false
    finish (← if isEmpty then emptyScalar else node true false fuel)

def ofText (s : String) : Except Fault Document := do
  let ts ← tokens s
  let (root, p) ← (stream (2 * ts.length + 4)).run ⟨ts, #[], [], [], false⟩
  return ⟨p.nodes, root, p.shared⟩

end Document
end JudgedLint.Yaml
