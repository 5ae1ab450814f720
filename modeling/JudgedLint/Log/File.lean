import JudgedLint.Log.Size
import JudgedLint.Workspace.Tree

/-! Log files of bounded size. A file that would reach its limit is moved aside first; numbered
older files move up, and the oldest is dropped. -/
namespace JudgedLint.Log

open Workspace (Path Tree FileError)

structure LogFile where
  path : Path
  /-- In bytes; zero for no limit. -/
  limit : Nat
  backups : Int
  deriving Repr

namespace LogFile

/-- The file with the given number; the one in use has none. -/
def numbered (f : LogFile) (n : Nat) : Path :=
  if n == 0 then f.path
  else { f.path with parts := f.path.parts.dropLast ++ [s!"{f.path.name}.{n}"] }

def moveUp (f : LogFile) (t : Tree) (n : Nat) : Tree :=
  match t.exists (f.numbered n) with
  | .ok true => ((t.rename (f.numbered n) (f.numbered (n + 1))).toOption).getD t
  | _ => t

def rotate (f : LogFile) (t : Tree) : Tree :=
  if f.backups ≤ 0 then t else (List.range f.backups.toNat).reverse.foldl f.moveUp t

def extend (path : Path) (bytes : List UInt8) (t : Tree) : Tree :=
  let before := ((t.read path).toOption).getD []
  ((t.write path (before ++ bytes)).toOption).getD t

/-- Adds a line. The limit counts the bytes that are there and the characters to come. -/
def append (f : LogFile) (t : Tree) (line : String) : Tree :=
  match t.exists f.path, t.isFile f.path with
  | .ok true, .ok false => t
  | _, _ =>
    let t := extend f.path [] t
    let size := ((t.size f.path).toOption).getD 0
    let t := if 0 < f.limit && f.limit ≤ size + line.length + 1 then f.rotate t else t
    extend f.path (Text.utf8Encode (line ++ "\n")) t

end LogFile

inductive FileSetupError where
  | file (e : FileError)
  | size (e : SizeError)
  deriving DecidableEq, Repr

def LogFile.open (t : Tree) (path : Path) (rotation : String) (retention : Int) :
    Except FileSetupError (LogFile × Tree) := do
  let path ← (t.expandHome path).mapError .file
  let (made, t) := t.makeDirs path.parent
  made.mapError .file
  let limit ← (parseSize rotation).mapError .size
  return (⟨path, limit, retention⟩, t)

end JudgedLint.Log
