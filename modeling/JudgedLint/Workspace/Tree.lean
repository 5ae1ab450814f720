import JudgedLint.Text.Quoted
import JudgedLint.Text.Utf8
import JudgedLint.Workspace.Path

/-! The directory tree that a command works on: files, directories and symbolic links below a
working directory. -/
namespace JudgedLint.Workspace

open Text (Bytes)

inductive Entry where
  | file (content : Bytes)
  | link (target : String)
  | dir (children : List (String × Entry))
  deriving Inhabited

/-- The working directory: its absolute path and what it holds. -/
structure Tree where
  root : String
  children : List (String × Entry)
  deriving Inhabited

inductive Refusal where
  | noEntry
  | exists
  | notDirectory
  | isDirectory
  | loop
  | nameTooLong
  /-- The path holds the character that ends texts in calls of the system. -/
  | embeddedNul
  /-- A path to be made absolute leads in a circle. -/
  | symlinkLoop
  | unknownHome
  deriving DecidableEq, Repr

/-- The number of a refusal by the system; none if the system was not asked. -/
def Refusal.code? : Refusal → Option Nat
  | .noEntry => some 2
  | .exists => some 17
  | .notDirectory => some 20
  | .isDirectory => some 21
  | .loop => some 40
  | .nameTooLong => some 36
  | _ => none

def Refusal.text : Refusal → String
  | .noEntry => "No such file or directory"
  | .exists => "File exists"
  | .notDirectory => "Not a directory"
  | .isDirectory => "Is a directory"
  | .loop => "Too many levels of symbolic links"
  | .nameTooLong => "File name too long"
  | .embeddedNul => "embedded null byte"
  | .symlinkLoop => "Symlink loop from"
  | .unknownHome => "Could not determine home directory."

def Refusal.kind : Refusal → String
  | .noEntry => "FileNotFoundError"
  | .exists => "FileExistsError"
  | .notDirectory => "NotADirectoryError"
  | .isDirectory => "IsADirectoryError"
  | .loop | .nameTooLong => "OSError"
  | .embeddedNul => "ValueError"
  | .symlinkLoop | .unknownHome => "RuntimeError"

/-- A refused operation on a path, or on two. -/
structure FileError where
  refusal : Refusal
  path : String
  target : Option String := none
  deriving DecidableEq, Repr

def FileError.message (e : FileError) : String :=
  match e.refusal.code?, e.target with
  | some code, none => s!"[Errno {code}] {e.refusal.text}: {Text.quoted e.path}"
  | some code, some t =>
    s!"[Errno {code}] {e.refusal.text}: {Text.quoted e.path} -> {Text.quoted t}"
  | none, _ =>
    if e.refusal == .symlinkLoop then s!"{e.refusal.text} {Text.quoted e.path}"
    else e.refusal.text

/-- What stands at the end of a list of names, below the given children. -/
def childAt (children : List (String × Entry)) : List String → Option Entry
  | [] => some (.dir children)
  | [name] => children.lookup name
  | name :: rest =>
    match children.lookup name with
    | some (.dir inner) => childAt inner rest
    | _ => none

/-- Puts an entry under a name, in the place of an earlier one. -/
def setChild (name : String) (e : Entry) : List (String × Entry) → List (String × Entry)
  | [] => [(name, e)]
  | (n, old) :: rest => if n == name then (n, e) :: rest else (n, old) :: setChild name e rest

/-- Puts an entry at the end of a list of names whose directories exist. -/
def putAt (e : Entry) : List String → List (String × Entry) → List (String × Entry)
  | [], children => children
  | [name], children => setChild name e children
  | name :: rest, children =>
    match children.lookup name with
    | some (.dir inner) => setChild name (.dir (putAt e rest inner)) children
    | _ => children

def removeAt : List String → List (String × Entry) → List (String × Entry)
  | [], children => children
  | [name], children => children.filter (·.1 != name)
  | name :: rest, children =>
    match children.lookup name with
    | some (.dir inner) => setChild name (.dir (removeAt rest inner)) children
    | _ => children

/-- Where a path leads: to an entry below the working directory, to a free name in a directory
there, or to the world outside, of which only directories above are known. -/
inductive Place where
  | found (names : List String) (e : Entry)
  | free (names : List String)
  | outside

/-- The segments of a path below the working directory; nothing for other absolute paths. -/
def Tree.segments? (t : Tree) (p : Path) : Option (List String) :=
  let root := Path.ofText t.root
  if p.lead == root.lead && root.parts.isPrefixOf p.parts then
    some (p.parts.drop root.parts.length)
  else if p.lead == "" then some p.parts
  else none

/-- Whether a path is the same from everywhere. Below a working directory that is given without
slashes in front, so are the paths that start with it. -/
def Tree.isAbsolute (t : Tree) (p : Path) : Bool :=
  let root := Path.ofText t.root
  p.lead != "" || (root.lead == "" && root.parts.isPrefixOf p.parts)

def Tree.join (t : Tree) (dir p : Path) : Path := if t.isAbsolute p then p else dir.join p

def longestName : Nat := 255

/-- A path of this many bytes is refused. -/
def pathBound : Nat := 4096

def isTooLong (p : Path) : Bool := pathBound ≤ p.text.utf8ByteSize

/-- Follows segments from a directory of the tree, given by its names. `links` bounds the symbolic
links on the way; the last segment's link is followed only if `last` says so. -/
def Tree.follow (t : Tree) (last : Bool) (links : Nat) (here : List String)
    (segments : List String) : Except Refusal Place :=
  match segments with
  | [] =>
    match childAt t.children here with
    | some e => .ok (.found here e)
    | none => .error .noEntry
  | ".." :: rest =>
    match here with
    | [] =>
      -- above the working directory only further steps up are known
      if rest.all (· == "..") then .ok .outside else .error .noEntry
    | _ => t.follow last links here.dropLast rest
  | name :: rest =>
    if longestName < name.utf8ByteSize then .error .nameTooLong
    else
      match childAt t.children (here ++ [name]) with
      | none => if rest.isEmpty then .ok (.free (here ++ [name])) else .error .noEntry
      | some (.dir _) => t.follow last links (here ++ [name]) rest
      | some (.file bs) =>
        if rest.isEmpty then .ok (.found (here ++ [name]) (.file bs)) else .error .notDirectory
      | some (.link target) =>
        if rest.isEmpty && !last then .ok (.found (here ++ [name]) (.link target))
        else
          match links with
          | 0 => .error .loop
          | links + 1 =>
            let p := Path.ofText target
            match t.segments? p with
            | none => .error .noEntry
            | some segments =>
              t.follow last links (if t.isAbsolute p then [] else here) (segments ++ rest)
  termination_by (links, segments.length)

/-- Where a path leads when every link is followed. -/
def Tree.locate (t : Tree) (p : Path) : Except Refusal Place :=
  if isTooLong p then .error .nameTooLong
  else
    match t.segments? p with
    | none => .error .noEntry
    | some segments => t.follow true 40 [] segments

/-- Where a path leads when the link that it names, if any, is not followed. -/
def Tree.locateLink (t : Tree) (p : Path) : Except Refusal Place :=
  if isTooLong p then .error .nameTooLong
  else
    match t.segments? p with
    | none => .error .noEntry
    | some segments => t.follow false 40 [] segments

def refused {α : Type} (p : Path) (r : Refusal) : Except FileError α := .error ⟨r, p.text, none⟩

/-- A call of the system with a path, which cannot be made if the path holds a NUL. -/
def withPath {α : Type} (p : Path) (call : Except FileError α) : Except FileError α :=
  if p.parts.any fun part => part.toList.contains '\x00' then refused p .embeddedNul else call

def Tree.entry (t : Tree) (p : Path) : Except FileError Entry :=
  match t.locate p with
  | .ok (.found _ e) => .ok e
  | .ok .outside => .ok (.dir [])
  | .ok (.free _) => refused p .noEntry
  | .error r => refused p r

/-- Refusals that only say that nothing is there. -/
def Refusal.meansAbsent : Refusal → Bool
  | .nameTooLong => false
  | _ => true

def Tree.test (t : Tree) (q : Entry → Bool) (p : Path) : Except FileError Bool :=
  match t.entry p with
  | .ok e => .ok (q e)
  | .error e => if e.refusal.meansAbsent then .ok false else .error e

def Entry.isFile : Entry → Bool
  | .file _ => true
  | _ => false

def Entry.isDir : Entry → Bool
  | .dir _ => true
  | _ => false

def Tree.exists (t : Tree) (p : Path) : Except FileError Bool := t.test (fun _ => true) p
def Tree.isFile (t : Tree) (p : Path) : Except FileError Bool := t.test Entry.isFile p
def Tree.isDir (t : Tree) (p : Path) : Except FileError Bool := t.test Entry.isDir p

def Tree.read (t : Tree) (p : Path) : Except FileError Bytes := withPath p <|
  match t.entry p with
  | .ok (.file bs) => .ok bs
  | .ok (.dir _) => refused p .isDirectory
  | .ok (.link _) => refused p .noEntry
  | .error e => .error e

def directorySize : Nat := 4096

def Tree.size (t : Tree) (p : Path) : Except FileError Nat := withPath p <|
  match t.entry p with
  | .ok (.file bs) => .ok bs.length
  | .ok _ => .ok directorySize
  | .error e => .error e

def Tree.put (t : Tree) (names : List String) (e : Entry) : Tree :=
  { t with children := putAt e names t.children }

/-- Writes a whole file, which may be new, into a directory that exists. -/
def Tree.write (t : Tree) (p : Path) (content : Bytes) : Except FileError Tree := withPath p <|
  match t.locate p with
  | .ok (.found names (.file _)) => .ok (t.put names (.file content))
  | .ok (.free names) => .ok (t.put names (.file content))
  | .ok _ => refused p .isDirectory
  | .error r => refused p r

def Tree.makeDir (t : Tree) (p : Path) : Except FileError Tree := withPath p <|
  match t.locateLink p with
  | .ok (.free names) => .ok (t.put names (.dir []))
  | .ok _ => refused p .exists
  | .error r => refused p r

/-- Makes a directory and those above it that are missing. One that is there already is fine. What
was made before a refusal stays. -/
def Tree.makeDirs (t : Tree) (p : Path) : Except FileError Unit × Tree :=
  go t p p.parts.length
where
  go (t : Tree) (p : Path) : Nat → Except FileError Unit × Tree
    | 0 => last t p
    | fuel + 1 =>
      match t.makeDir p with
      | .ok t => (.ok (), t)
      | .error e =>
        if e.refusal == .noEntry && p.parent != p then
          match go t p.parent fuel with
          | (.ok (), t) => last t p
          | failed => failed
        else (unlessThere t p e, t)
  last (t : Tree) (p : Path) : Except FileError Unit × Tree :=
    match t.makeDir p with
    | .ok t => (.ok (), t)
    | .error e => (unlessThere t p e, t)
  unlessThere (t : Tree) (p : Path) (e : FileError) : Except FileError Unit :=
    match t.isDir p with
    | .ok true => .ok ()
    | _ => .error e

/-- Removes a file or a link; a name that is not there may be passed over. -/
def Tree.remove (t : Tree) (p : Path) (missingOk : Bool) : Except FileError Tree := withPath p <|
  match t.locateLink p with
  | .ok (.found names e) =>
    if e.isDir then refused p .isDirectory
    else .ok { t with children := removeAt names t.children }
  | .ok .outside => refused p .isDirectory
  | .ok (.free _) => if missingOk then .ok t else refused p .noEntry
  | .error r => if missingOk && r == .noEntry then .ok t else refused p r

/-- Gives the content to a path in one step: a file or a link there is replaced, a directory is
not. `source` is how the new content is named in a refusal. -/
def Tree.replace (t : Tree) (source : String) (p : Path) (content : Bytes) :
    Except FileError Tree := withPath p <|
  match t.locateLink p with
  | .ok (.found names e) =>
    if e.isDir then .error ⟨.isDirectory, source, some p.text⟩
    else .ok (t.put names (.file content))
  | .ok (.free names) => .ok (t.put names (.file content))
  | .ok .outside => .error ⟨.isDirectory, source, some p.text⟩
  | .error r => .error ⟨r, source, some p.text⟩

def Tree.rename (t : Tree) (old new : Path) : Except FileError Tree :=
  match t.locateLink old with
  | .ok (.found names e) =>
    let t' := { t with children := removeAt names t.children }
    match t'.locateLink new with
    | .ok (.found target _) => .ok (t'.put target e)
    | .ok (.free target) => .ok (t'.put target e)
    | _ => .error ⟨.noEntry, old.text, some new.text⟩
  | _ => .error ⟨.noEntry, old.text, some new.text⟩

def knownHomes : List (String × String) := [("~root", "/root")]

/-- The home directory in front of a path that starts with a tilde: the working directory's own, or
that of a user whose name stands behind the tilde. -/
def Tree.expandHome (t : Tree) (p : Path) : Except FileError Path :=
  match p.lead, p.parts with
  | "", first :: rest =>
    if !Text.startsWith first "~" then .ok p
    else
      match (("~", t.root) :: knownHomes).lookup first with
      | some home => .ok ((Path.ofText home).join ⟨"", rest⟩)
      | none => refused p .unknownHome
  | _, _ => .ok p

mutual
/-- Every regular file below the children, with its path from `above`. -/
def filesBelow (above : String) : List (String × Entry) → List (String × Bytes)
  | [] => []
  | (name, e) :: rest => filesOf (above ++ name) e ++ filesBelow above rest

def filesOf (path : String) : Entry → List (String × Bytes)
  | .file bs => [(path, bs)]
  | .link _ => []
  | .dir children => filesBelow (path ++ "/") children
end

def Tree.files (t : Tree) : List (String × Bytes) := filesBelow "" t.children

mutual
def Entry.links : Entry → Nat
  | .file _ => 0
  | .link _ => 1
  | .dir children => linksIn children

def linksIn : List (String × Entry) → Nat
  | [] => 0
  | (_, e) :: rest => e.links + linksIn rest
end

/-- Names with every link on the way replaced by what it leads to, as far as that is known. `false`
if a link leads back to itself: what comes from there on is left as it is. `followed` are the links
that are being followed. -/
def Tree.settle (t : Tree) (depth : Nat) (followed : List (List String)) (here : List String)
    (segments : List String) : Bool × List String :=
  match segments with
  | [] => (true, here)
  | ".." :: rest =>
    let up := if here.all (· == "..") then here ++ [".."] else here.dropLast
    t.settle depth followed up rest
  | name :: rest =>
    let names := here ++ [name]
    match childAt t.children names with
    | some (.link target) =>
      if followed.contains names then (false, names ++ rest)
      else
        let q := Path.ofText target
        match depth, t.segments? q with
        | depth + 1, some more =>
          let start := if t.isAbsolute q then [] else here
          match t.settle depth (names :: followed) start more with
          | (true, place) => t.settle (depth + 1) followed place rest
          | (false, place) => (false, place ++ rest)
        | _, _ => (true, names ++ rest)
    | _ => t.settle depth followed names rest
  termination_by (depth, segments.length)

/-- The absolute form of a path: links followed as far as they lead, then plain segments. A path
that still leads in a circle is refused. -/
def Tree.resolve (t : Tree) (p : Path) : Except FileError Path := withPath p <|
  let root := Path.ofText t.root
  match t.segments? p with
  | none => .ok ⟨p.lead, Path.collapse true p.parts⟩
  | some segments =>
    let names := (t.settle (linksIn t.children) [] [] segments).2
    let place : Path := ⟨root.lead, Path.collapse true (root.parts ++ names)⟩
    match t.locate place with
    | .error .loop => refused place .symlinkLoop
    | _ => .ok place

end JudgedLint.Workspace
