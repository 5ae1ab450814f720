import JudgedLint.Cache.Document
import JudgedLint.Json.Reader
import JudgedLint.Json.Writer
import JudgedLint.Log.Record
import JudgedLint.Workspace.Tree

/-! The cache on disk: a single file that is read as a whole and replaced as a whole. -/
namespace JudgedLint.Cache

open Workspace (Path Tree FileError)

structure Store where
  dir : Path
  document : Document := {}
  deriving Inhabited

def defaultDir : String := ".ai-lint"

def fileName : String := "cache.json"

namespace Store

/-- A store with nothing in memory; a tilde in front of the directory means a home directory. -/
def inDir (t : Tree) (dir : Path) : Except FileError Store :=
  (t.expandHome dir).map fun dir => { dir }

def path (s : Store) : Path := s.dir.child fileName

def loggerPart : String := "cache.json_store"

inductive Damage where
  | encoding
  | form
  | shape
  deriving DecidableEq, Repr

def Damage.name : Damage → String
  | .encoding => "UnicodeDecodeError"
  | .form => "JSONDecodeError"
  | .shape => "ValidationError"

/-- The document that bytes hold. The outer error is a limit of the reader. -/
def decode (bytes : List UInt8) : Except Json.ReadError (Except Damage Document) :=
  match Text.utf8Decode bytes with
  | .error _ => .ok (.error .encoding)
  | .ok text =>
    match Json.parse .general text with
    | .error e => if e.isMalformed then .ok (.error .form) else .error e
    | .ok j =>
      match Document.reader (Datum.ofJson j) with
      | .error _ => .ok (.error .shape)
      | .ok d => .ok (.ok d)

def warn (message : String) : Log.Record := Log.record .warning loggerPart message

inductive LoadError where
  | json (e : Json.ReadError)
  /-- No file can have the path. -/
  | path (e : FileError)
  deriving DecidableEq, Repr

/-- Reads the file. A missing file is an empty cache, and so is a damaged one, with a warning. -/
def load (s : Store) (t : Tree) : Except LoadError (Store × List Log.Record) := do
  let fresh : Store := { s with document := {} }
  match t.read s.path with
  | .error e =>
    if e.refusal == .noEntry then return (fresh, [])
    else if e.refusal == .embeddedNul then throw (.path e)
    else
      return (fresh, [warn (s!"Failed to read cache file {s.path.text} ({e.message}). " ++
        "Starting with empty cache.")])
  | .ok bytes =>
    match ← (decode bytes).mapError .json with
    | .error damage =>
      return (fresh, [warn (s!"Cache file {s.path.text} is invalid ({damage.name}). " ++
        "Starting with empty cache.")])
    | .ok d =>
      let note := s!"Loaded {d.entries.length} cache entries from {s.path.text}"
      return ({ s with document := d }, [Log.record .debug loggerPart note])

def encode (d : Document) : String := Json.render .plainBlock d.toJson

/-- How the new content is named in refusals before it takes the file's place. -/
def temporaryName : String := "<temp>"

inductive SaveError where
  | file (e : FileError)
  | text (e : Text.EncodeError)
  deriving DecidableEq, Repr

def put (s : Store) (t : Tree) : Except SaveError Tree :=
  match s.document.unwritable? with
  | some e => .error (.text e)
  | none =>
    (t.replace temporaryName s.path (Text.utf8Encode (encode s.document))).mapError .file

/-- Saves the document, making the directory if it is missing; one that was made stays when the
document is not saved. -/
def save (s : Store) (t : Tree) : Except SaveError (List Log.Record) × Tree :=
  match t.makeDirs s.dir with
  | (.error e, t) => (.error (.file e), t)
  | (.ok (), t) =>
    match s.put t with
    | .error e => (.error e, t)
    | .ok t =>
      let note := s!"Saved {s.document.entries.length} cache entries to {s.path.text}"
      (.ok [Log.record .debug loggerPart note], t)

def clear (s : Store) (t : Tree) : Except FileError (Store × Tree) := do
  let t ← t.remove s.path true
  return ({ s with document := {} }, t)

def status (s : Store) (t : Tree) : Except FileError (Nat × Nat) :=
  match t.size s.path with
  | .ok n => .ok (s.document.entries.length, n)
  | .error e =>
    if e.refusal == .noEntry then .ok (s.document.entries.length, 0) else .error e

end Store
end JudgedLint.Cache
