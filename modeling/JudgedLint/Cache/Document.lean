import JudgedLint.Cache.Stamp
import JudgedLint.Lint.Result

/-! The result cache in memory: for each rule and file the result last obtained, with the
fingerprints of what was judged. -/
namespace JudgedLint.Cache

open Calendar (Moment)
open Lint (Result)

structure Entry where
  fileHash : String
  promptHash : String
  ruleId : String
  result : Result
  timestamp : Moment
  deriving DecidableEq, Repr, Inhabited

def key (ruleId file : String) : String := s!"{ruleId}:{file}"

structure Document where
  /-- Entries by key, in the order in which the keys came in. -/
  entries : List (String × Entry) := []
  deriving DecidableEq, Repr, Inhabited

namespace Document

def empty : Document := {}

/-- The stored result, if both fingerprints are still the ones it was stored with. -/
def lookup (d : Document) (ruleId file fileHash promptHash : String) : Option Result :=
  match d.entries.lookup (key ruleId file) with
  | none => none
  | some e => if e.fileHash == fileHash && e.promptHash == promptHash then some e.result else none

/-- Stores a result in the place of an earlier one for the same rule and file. -/
def store (d : Document) (ruleId file fileHash promptHash : String) (result : Result)
    (timestamp : Moment) : Document :=
  ⟨Json.put (key ruleId file) ⟨fileHash, promptHash, ruleId, result, timestamp⟩ d.entries⟩

end Document

def formatVersion : Int := 1

open Form in
def Entry.reader : Form.Reader Entry := record "CacheEntry" fun d =>
  Checked.apply (Checked.apply (Checked.apply (Checked.apply
    ((required "file_hash" text d).map Entry.mk)
    (required "prompt_hash" text d))
    (required "rule_id" text d))
    (required "result" Result.reader d))
    (required "timestamp" stampReader d)

open Form in
/-- The version, or a number or truth value equal to it. -/
def versionReader : Form.Reader Unit := fun d =>
  match d.numeric? with
  | some (.inl n) => if n == formatVersion then .ok () else fail (.notOneOf ["1"])
  | _ => fail (.notOneOf ["1"])

open Form in
def entriesFrom : List (Datum × Datum) → Checked (List (String × Entry))
  | [] => .ok []
  | (k, v) :: rest =>
    let key := (text k).under (.name k.keyText)
    let pair := Checked.apply (key.map Prod.mk) ((Entry.reader v).under (.name k.keyText))
    Checked.apply (pair.map List.cons) (entriesFrom rest)

open Form in
def entriesReader : Form.Reader (List (String × Entry)) := fun d =>
  if d.isMap then entriesFrom d.entries else fail .notMapping

open Form in
def Document.reader : Form.Reader Document := record "CacheDocument" fun d =>
  Checked.apply ((withDefault "version" () versionReader d).map fun _ => Document.mk)
    (withDefault "entries" [] entriesReader d)

def Entry.toJson (e : Entry) : Json :=
  .obj [("file_hash", .str e.fileHash), ("prompt_hash", .str e.promptHash),
    ("rule_id", .str e.ruleId), ("result", e.result.toJson),
    ("timestamp", .str e.timestamp.stampText)]

/-- The texts of an entry that need not be well-formed, in the order in which they are written. -/
def Entry.texts (e : Entry) : List String :=
  [e.fileHash, e.promptHash, e.ruleId, e.result.ruleId, e.result.ruleName, e.result.file,
    e.result.message]

def Document.unwritable? (d : Document) : Option Text.EncodeError :=
  (d.entries.flatMap fun e => e.2.texts).findSome? Text.surrogates?

/-- The data of a file. Surrogates that stand alone in a key are replaced. -/
def Document.toJson (d : Document) : Json :=
  .obj [("version", .int formatVersion),
    ("entries", .obj (d.entries.map fun e => (Text.replaceSurrogates e.1, e.2.toJson)))]

end JudgedLint.Cache
