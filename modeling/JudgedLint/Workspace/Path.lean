import JudgedLint.Text.Search

/-! Paths as texts with slashes, in the form in which they are shown.

Empty and `.` segments vanish when a path is read, `..` stays; two slashes in front, but not three,
are kept as they are. -/
namespace JudgedLint.Workspace

structure Path where
  /-- The slashes in front of an absolute path. -/
  lead : String
  parts : List String
  deriving DecidableEq, Repr, Inhabited

namespace Path

def leadOf (s : String) : String :=
  match s.toList with
  | '/' :: '/' :: '/' :: _ => "/"
  | '/' :: '/' :: _ => "//"
  | '/' :: _ => "/"
  | _ => ""

def ofText (s : String) : Path :=
  ⟨leadOf s, (Text.split '/' s).filter fun part => part != "" && part != "."⟩

def text (p : Path) : String :=
  if p.lead == "" && p.parts.isEmpty then "." else p.lead ++ Text.join "/" p.parts

/-- A path seen from a directory; an absolute path is the same from everywhere. -/
def join (dir p : Path) : Path :=
  if p.lead == "" then ⟨dir.lead, dir.parts ++ p.parts⟩ else p

def child (dir : Path) (name : String) : Path := ⟨dir.lead, dir.parts ++ [name]⟩

/-- The directory a path stands in; a path without segments stands in itself. -/
def parent (p : Path) : Path := { p with parts := p.parts.dropLast }

def name (p : Path) : String := p.parts.getLast?.getD ""

/-- The end of a file name from its last point on. A point at either end of the name starts no
suffix. -/
def suffix (p : Path) : String :=
  match Text.cutLast? '.' p.name with
  | some (before, after) => if before.isEmpty || after.isEmpty then "" else "." ++ after
  | none => ""

/-- Segments with each `..` taking away the segment before it, as far as there is one. -/
def collapse (absolute : Bool) (parts : List String) : List String :=
  let step (done : List String) (part : String) : List String :=
    if part == ".." then
      match done with
      | [] => if absolute then [] else [".."]
      | last :: rest => if last == ".." then ".." :: done else rest
    else part :: done
  (parts.foldl step []).reverse

/-- The way from one list of segments to another: up out of what they do not share, then down. -/
def relativeParts : List String → List String → List String
  | a :: start, b :: target =>
    if a == b then relativeParts start target
    else ".." :: start.map (fun _ => "..") ++ b :: target
  | start, target => start.map (fun _ => "..") ++ target

end Path
end JudgedLint.Workspace
