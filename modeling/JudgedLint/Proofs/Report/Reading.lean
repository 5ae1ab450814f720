import JudgedLint.Report.File
import JudgedLint.Proofs.Lint.Result
import JudgedLint.Proofs.Text.Utf8
import JudgedLint.Proofs.Workspace.Files

/-! What a report says to a program that reads it: the exit code, the error if there is one, and the
results and the summary as they were in memory. A report that is written stands in one place, and every
other file is as it was. -/
namespace JudgedLint.Report

open Json (Sized)
open Text (Bytes)
open Lint (Result Summary)
open Workspace (FileError LeadsTo Path Tree)

structure Told where
  code : Int
  error : Option String
  results : List Result
  summary : Summary

open Form in
def Told.reader : Form.Reader Told := record "Report" fun d =>
  Checked.apply (Checked.apply (Checked.apply
    ((required "exit_code" integer d).map Told.mk)
    (withDefault "error" none (optional text) d))
    (required "results" (listOf Result.reader) d))
    (required "summary" Summary.reader d)

/-- What a file says that is read as a report, by a reader that takes whole numbers of so many
digits. -/
def Told.ofBytes (digits : Nat) (bytes : Bytes) : Option Told :=
  match Text.utf8Decode bytes with
  | .error _ => none
  | .ok text =>
    match Json.parse (.upTo digits) text with
    | .error _ => none
    | .ok j => (Told.reader (.ofJson j)).toOption

def bytesOf (report : Json) : Bytes := Text.utf8Encode (Json.render .block report)

section

variable {now : Calendar.Moment} {results : List Result} {summary : Summary} {code : Int}
  {error : Option String} {digits : Nat}

def members (stamp : String) (results : List Result) (summary : Summary) (code : Int)
    (error : Option String) : List (String × Json) :=
  [("mode", .str "report-only"), ("generated_at", .str stamp), ("exit_code", .int code),
    ("summary", summary.toJson), ("results", .arr (results.map Result.toJson))] ++
    (error.map fun e => ("error", Json.str e)).toList

theorem document_sized (levels : Nat) (hresults : ∀ r ∈ results, r.Lasting)
    (hsummary : ∀ n ∈ summary.numbers, (Nat.toDigits 10 n.natAbs).length ≤ digits)
    (hcode : (Nat.toDigits 10 code.natAbs).length ≤ digits)
    (hd : Json.Limits.general.digits ≤ digits) :
    Sized digits (levels + 3) (document now results summary code error) := by
  have hitems : ∀ j ∈ results.map Result.toJson, Sized digits (levels + 1) j := by
    intro j hj
    obtain ⟨r, hr, rfl⟩ := List.mem_map.mp hj
    exact (Result.toJson_writable (hresults r hr).short (hresults r hr).texts).sized hd
  have hbody : ∀ m ∈ [("mode", .str "report-only"), ("generated_at", .str (now.text "T")),
      ("exit_code", .int code), ("summary", summary.toJson),
      ("results", .arr (results.map Result.toJson))], Sized digits (levels + 2) m.2 := by
    simp only [List.forall_mem_cons, List.not_mem_nil, false_implies, implies_true, and_true]
    exact ⟨.str _, .str _, .int hcode, Summary.toJson_sized hsummary, .arr hitems⟩
  refine .obj fun m hm => ?_
  rcases List.mem_append.mp hm with hm | hm
  · exact hbody m hm
  · obtain ⟨e, _, rfl⟩ := Option.map_eq_some_iff.mp (Option.mem_toList.mp hm)
    exact .str e

/-- No key stands twice, and of the texts at most the error changes. -/
theorem regained_document (now : Calendar.Moment) (hresults : ∀ r ∈ results, r.Lasting)
    (summary : Summary) (code : Int) (error : Option String) :
    ∃ stamp, (document now results summary code error).regained =
      .obj (members stamp results summary code (error.map Json.pairedText)) := by
  have hitems : Json.regainedItems (results.map Result.toJson) = results.map Result.toJson := by
    rw [Json.regainedItems_eq, List.map_map]
    exact List.map_congr_left fun r hr => (hresults r hr).regained
  refine ⟨Json.pairedText (now.text "T"), ?_⟩
  have hwell : ∀ s ∈ ["mode", "report-only", "generated_at", "exit_code", "summary", "results",
      "error"], Json.pairedText s = s := by
    have hall : ∀ s ∈ ["mode", "report-only", "generated_at", "exit_code", "summary", "results",
      "error"], Text.isWellFormed s = true := by decide
    exact fun s hs => Json.pairedText_of_isWellFormed (hall s hs)
  simp only [List.forall_mem_cons, List.not_mem_nil, false_implies, implies_true, and_true] at hwell
  obtain ⟨hmode, honly, hat, hcode, hsummary, hresults', herror⟩ := hwell
  cases error with
  | none =>
    simp only [document, Json.regained, Json.regainedMembers, hmode, honly, hat, hcode, hsummary,
      hresults', hitems, Summary.toJson_regained, Option.map_none, Option.toList_none,
      List.append_nil, members]
    rfl
  | some e =>
    simp only [document, Json.regained, Json.regainedMembers, hmode, honly, hat, hcode, hsummary,
      hresults', hitems, herror, Summary.toJson_regained, Option.map_some, Option.toList_some,
      List.cons_append, List.nil_append, members]
    rfl

theorem reader_members (stamp : String) (results : List Result) (summary : Summary) (code : Int)
    (error : Option String) :
    Told.reader (.ofJson (.obj (members stamp results summary code error))) =
      .ok ⟨code, error, results, summary⟩ := by
  have hmap : ∀ ms, (Datum.ofJson (.obj ms)).isMap = true := fun _ => rfl
  have hresults : Form.listOf Result.reader (.ofJson (.arr (results.map Result.toJson))) =
      .ok results := Result.itemsFrom_toJson 0 results
  simp only [Told.reader, members, Form.record, hmap, if_true, Form.required, Form.withDefault,
    Datum.get?_ofJson]
  cases error with
  | none =>
    simp [List.lookup_cons, hresults, Summary.reader_toJson]
    rfl
  | some e =>
    simp [List.lookup_cons, hresults, Summary.reader_toJson]
    rfl

theorem ofBytes_document (now : Calendar.Moment) (hresults : ∀ r ∈ results, r.Lasting)
    (hsummary : ∀ n ∈ summary.numbers, (Nat.toDigits 10 n.natAbs).length ≤ digits)
    (hcode : (Nat.toDigits 10 code.natAbs).length ≤ digits)
    (hd : Json.Limits.general.digits ≤ digits) :
    Told.ofBytes digits (bytesOf (document now results summary code error)) =
      some ⟨code, error.map Json.pairedText, results, summary⟩ := by
  have hsized : Sized digits Json.Limits.general.depth (document now results summary code error) :=
    document_sized 967 hresults hsummary hcode hd
  obtain ⟨stamp, hregained⟩ := regained_document now hresults summary code error
  have hparse : Json.parse (.upTo digits) (Json.render .block
      (document now results summary code error)) =
      .ok (.obj (members stamp results summary code (error.map Json.pairedText))) :=
    (Json.parse_stacked true hsized).trans (congrArg Except.ok hregained)
  rw [Told.ofBytes, bytesOf, Text.utf8Decode_utf8Encode]
  simp only [hparse, reader_members]
  rfl

theorem ofBytes_more (now : Calendar.Moment) (hresults : ∀ r ∈ results, r.Lasting)
    (hsummary : ∀ n ∈ summary.numbers, (Nat.toDigits 10 n.natAbs).length ≤ digits)
    (hcode : (Nat.toDigits 10 code.natAbs).length ≤ digits)
    (hd : Json.Limits.general.digits ≤ digits) {more : String} {c : Char} {cs : List Char}
    (hmore : more.toList = c :: cs) (hc : Json.isSpace c = false) :
    Told.ofBytes digits (bytesOf (document now results summary code error) ++
      Text.utf8Encode more) = none := by
  have hsized : Sized digits Json.Limits.general.depth (document now results summary code error) :=
    document_sized 967 hresults hsummary hcode hd
  obtain ⟨e, he⟩ := Json.parse_object_more true hsized hmore hc
  have hbytes : bytesOf (document now results summary code error) ++ Text.utf8Encode more =
      Text.utf8Encode (Json.render .block (document now results summary code error) ++ more) := by
    simp only [bytesOf, Text.utf8Encode, String.toList_append, List.flatMap_append]
  have hparse : Json.parse (.upTo digits)
      (Json.render .block (document now results summary code error) ++ more) = .error e := he
  rw [Told.ofBytes, hbytes, Text.utf8Decode_utf8Encode]
  simp only [hparse]

end

/-! ### Where it stands -/

variable {t t' : Tree} {file : String} {report : Json} {w : String × Log.Record}

/-- A report stands in a place to which its path leads, and every other file is as it was. -/
structure Left (t t' : Tree) (file : String) (report : Json) (path : Path) (place : List String) :
    Prop where
  resolved : t.resolve (Path.ofText file) = .ok path
  leads : LeadsTo place (t'.locate path)
  read : t'.read path = .ok (bytesOf report)
  others : ∀ names ≠ place, t'.fileAt names = t.fileAt names

theorem write_eq_ok (h : write t file report = (.ok w, t')) :
    ∃ path place, Left t t' file report path place := by
  unfold write at h
  split at h
  · cases h
  · next path hpath =>
    split at h
    · cases h
    · next paved hmade =>
      split at h
      · cases h
      · next t'' hwritten =>
        cases h
        obtain ⟨place, hplace⟩ := Workspace.write_eq_ok hwritten
        refine ⟨path, place, hpath, .inr ⟨_, hplace.leads⟩, hplace.read, fun names hne => ?_⟩
        rw [hplace.others hne, Workspace.Paved.fileAt (Workspace.makeDirs_paved hmade)]

end JudgedLint.Report
