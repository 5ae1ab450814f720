import JudgedLint.Json.Basic
import JudgedLint.Text.Hex
import JudgedLint.Workspace.Tree

/-! Working directories as JSON objects: each path with its content. Bytes that are no text are
written in hexadecimal digits; directories and links have forms of their own. -/
namespace JudgedLint.Workspace

def contentJson (bytes : List UInt8) : Json :=
  match Text.utf8Decode bytes with
  | .ok s => .str s
  | .error _ => .obj [("hex", .str (Text.hexOfBytes bytes))]

namespace Tree

/-- The tree with an entry, whose directories are made if they are missing; null removes a file. -/
def withEntry (t : Tree) (entry : String × Json) : Tree :=
  let p := Path.ofText entry.1
  let base := (t.makeDirs p.parent).2
  let content (bytes : List UInt8) : Tree := ((base.write p bytes).toOption).getD base
  match entry.2 with
  | .str s => content (Text.utf8Encode s)
  | .null => ((t.remove p true).toOption).getD t
  | j =>
    match (j.get "hex").str?, (j.get "link").str? with
    | some digits, _ => content ((Text.hexBytes? digits.toList).getD [])
    | _, some target => base.put p.parts (.link target)
    | _, _ => (t.makeDirs p).2

def withEntries (t : Tree) (entries : Json) : Tree := entries.pairs.foldl withEntry t

def snapshot (t : Tree) : Json := .obj (t.files.map fun f => (f.1, contentJson f.2))

end Tree
end JudgedLint.Workspace
