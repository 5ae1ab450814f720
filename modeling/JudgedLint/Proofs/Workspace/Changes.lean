import JudgedLint.Proofs.Workspace.Selection

/-! Changed files as `git` lists them. A name of printable ASCII characters stands on its line as it is;
any other stands between quotes, with escapes for the bytes that are not printable. Lines are taken as
names without looking for quotes, and without the blanks at their ends. -/
namespace JudgedLint.Workspace

open Text (Bytes)

variable {t : Tree} {start : Path} {dirs names : List String} {name : String} {c : Char} {cs : List Char}

/-! ## Lines -/

theorem linesOf_append {line rest : List Char} (h : ∀ c ∈ line, Text.isLineBreak c = false) :
    Text.linesOf (line ++ '\n' :: rest) = line :: Text.linesOf rest := by
  induction line with
  | nil => rfl
  | cons c line ih =>
    rw [List.forall_mem_cons] at h
    rw [List.cons_append, Text.linesOf, if_neg (by rw [h.1]; exact Bool.false_ne_true), ih h.2]
    rintro rest rfl
    exact absurd h.1 (by decide)

theorem unifyBreaks_of_notMem (h : '\r' ∉ cs) : Text.unifyBreaks cs = cs := by
  induction cs with
  | nil => rfl
  | cons c cs ih =>
    rw [List.mem_cons, not_or] at h
    rw [Text.unifyBreaks, if_neg (by simpa using Ne.symm h.1), ih h.2]
    rintro rest rfl
    exact absurd rfl h.1

/-! ## What is listed -/

def isPrintable (c : Char) : Bool := 32 ≤ c.toNat && c.toNat < 127

def byteEscapes : List (UInt8 × Char) :=
  [(7, 'a'), (8, 'b'), (9, 't'), (10, 'n'), (11, 'v'), (12, 'f'), (13, 'r'), (34, '"'), (92, '\\')]

def listedByte (b : UInt8) : List Char :=
  match byteEscapes.lookup b with
  | some c => ['\\', c]
  | none =>
    let n := b.toNat
    if isPrintable (Char.ofNat n) then [Char.ofNat n]
    else '\\' :: [n / 64, n / 8 % 8, n % 8].map fun digit => Char.ofNat (48 + digit)

def isVerbatim (name : String) : Bool :=
  name.toList.all fun c => isPrintable c && c != '"' && c != '\\'

/-- The line on which a name is listed. -/
def listedName (name : String) : String :=
  if isVerbatim name then name
  else String.ofList ('"' :: (Text.utf8Encode name).flatMap listedByte ++ ['"'])

/-- The list of names, each on a line of its own. -/
def listing (names : List String) : String :=
  String.ofList (names.flatMap fun name => (listedName name).toList ++ ['\n'])

theorem isPrintable_listedByte (b : UInt8) : ∀ c ∈ listedByte b, isPrintable c = true := by
  have hall : ∀ n < 256, (listedByte (UInt8.ofNat n)).all isPrintable = true := by decide +kernel
  have hb := hall b.toNat b.toNat_lt
  rw [UInt8.ofNat_toNat] at hb
  exact List.all_eq_true.mp hb

theorem isPrintable_listedName (name : String) : ∀ c ∈ (listedName name).toList, isPrintable c = true := by
  intro c hc
  rw [listedName] at hc
  split at hc
  · next hverbatim =>
    have hplain := List.all_eq_true.mp hverbatim c hc
    simp only [Bool.and_eq_true] at hplain
    exact hplain.1.1
  · rw [String.toList_ofList, List.cons_append, List.mem_cons, List.mem_append, List.mem_singleton] at hc
    rcases hc with rfl | hc | rfl
    · decide
    · obtain ⟨b, _, hb⟩ := List.mem_flatMap.mp hc
      exact isPrintable_listedByte b c hb
    · decide

theorem isLineBreak_of_isPrintable (h : isPrintable c = true) : Text.isLineBreak c = false := by
  simp only [isPrintable, Bool.and_eq_true, decide_eq_true_eq] at h
  simp only [Text.isLineBreak, Bool.or_eq_false_iff, Bool.and_eq_false_iff, decide_eq_false_iff_not, beq_eq_false_iff_ne]
  omega

theorem lines_listing (names : List String) :
    Text.lines (Text.universalNewlines (listing names)) = names.map listedName := by
  have hreturn : '\r' ∉ (listing names).toList := by
    rw [listing, String.toList_ofList, List.mem_flatMap]
    rintro ⟨name, _, hin⟩
    rcases List.mem_append.mp hin with hin | hin
    · exact absurd (isPrintable_listedName name _ hin) (by decide)
    · exact absurd hin (by decide)
  rw [Text.lines, Text.universalNewlines, String.toList_ofList, unifyBreaks_of_notMem hreturn, listing,
    String.toList_ofList]
  clear hreturn
  induction names with
  | nil => rfl
  | cons name names ih =>
    rw [List.flatMap_cons, List.append_assoc, List.singleton_append,
      linesOf_append fun c hc => isLineBreak_of_isPrintable (isPrintable_listedName name c hc),
      List.map_cons, List.map_cons, ih, String.ofList_toList]

/-! ## What is selected -/

/-- A name as it is listed: relative, with single slashes, without `..` and backslashes. -/
structure IsListable (name : String) : Prop where
  canonical : (Path.ofText name).text = name
  relative : (Path.ofText name).lead = ""
  plain : ".." ∉ (Path.ofText name).parts
  slash : '\\' ∉ name.toList

theorem IsListable.eq_text (h : IsListable name) : Path.text ⟨"", (Path.ofText name).parts⟩ = name := by
  have hpath : (⟨"", (Path.ofText name).parts⟩ : Path) = Path.ofText name := by rw [← h.relative]
  rw [hpath, h.canonical]

theorem IsListable.ne_empty (h : IsListable name) : name ≠ "" := by
  rintro rfl
  exact absurd h.canonical (by decide)

theorem IsListable.shownAs (h : IsListable name) (hw : t.WorksIn start dirs) :
    t.shownAs start name = name := by
  have hsegment : ∀ part ∈ (Path.ofText name).parts, Path.IsSegment part :=
    fun part hpart => Path.isSegment_of_mem_ofText hpart
  have hslash : ∀ part ∈ (Path.ofText name).parts, '\\' ∉ part.toList :=
    fun part hpart hin => h.slash (Path.mem_of_mem_ofText hpart hin)
  have hpath : t.pathOf start name = ⟨start.lead, start.parts ++ (Path.ofText name).parts⟩ := by
    have htext := pathOf_text hw.root hsegment start
    rwa [h.eq_text] at htext
  rw [Tree.shownAs, hpath, relative_below hw hsegment hslash h.plain, h.eq_text]

/-- Whether trimming the line on which a name is listed gives the name. -/
def survivesListing (name : String) : Bool := isVerbatim name && Text.trim name == name

theorem trim_listedName (h : survivesListing name = true) : Text.trim (listedName name) = name := by
  rw [survivesListing, Bool.and_eq_true, beq_iff_eq] at h
  rw [listedName, if_pos h.1, h.2]

theorem IsListable.isEmpty (h : IsListable name) : name.isEmpty = false :=
  Bool.eq_false_iff.mpr fun hempty => h.ne_empty (String.isEmpty_iff.mp hempty)

theorem selectLines_listed (hw : t.WorksIn start dirs)
    (hlisted : ∀ name ∈ names, IsListable name ∧ t.isFile (t.pathOf start name) = .ok true)
    (hall : ∀ name ∈ names, survivesListing name = true) :
    t.selectLines start (names.map listedName) = .ok names := by
  induction names with
  | nil => rfl
  | cons name names ih =>
    rw [List.forall_mem_cons] at hlisted hall
    obtain ⟨⟨hname, hfile⟩, hrest⟩ := hlisted
    have hshown := hname.shownAs hw
    rw [Tree.pathOf] at hfile
    rw [Tree.shownAs, Tree.pathOf] at hshown
    rw [List.map_cons, Tree.selectLines]
    simp only [trim_listedName hall.1, hname.isEmpty, Bool.false_eq_true, if_false, hfile, hshown,
      ih hrest hall.2]
    rfl

theorem filter_survivesListing_sublist (hw : t.WorksIn start dirs)
    (hlisted : ∀ name ∈ names, IsListable name ∧ t.isFile (t.pathOf start name) = .ok true) :
    (names.filter survivesListing).Sublist
      ((((names.map listedName).map Text.trim).filter fun line =>
        !line.isEmpty && t.namesFile start line).map (t.shownAs start)) := by
  induction names with
  | nil => exact List.Sublist.refl _
  | cons name names ih =>
    rw [List.forall_mem_cons] at hlisted
    obtain ⟨⟨hname, hfile⟩, hrest⟩ := hlisted
    rw [List.map_cons, List.map_cons, List.filter_cons, List.filter_cons]
    cases hsurvives : survivesListing name with
    | true =>
      have hkept : (!name.isEmpty && t.namesFile start name) = true := by
        rw [hname.isEmpty, namesFile_eq_true.mpr hfile]
        rfl
      rw [trim_listedName hsurvives, if_pos rfl, if_pos hkept, List.map_cons, hname.shownAs hw]
      exact (ih hrest).cons_cons name
    | false =>
      rw [if_neg Bool.false_ne_true]
      split
      · exact (ih hrest).cons _
      · exact ih hrest

/-- No listed file is missed whose name stands on its line as it is, without blanks at its ends. If
there are no others, all files are selected, in order. -/
theorem selectChanged_listing (hw : t.WorksIn start dirs)
    (hlisted : ∀ name ∈ names, IsListable name ∧ t.isFile (t.pathOf start name) = .ok true) (errors : String) :
    (∀ shown, t.selectChanged start (.finished (listing names) errors 0) = .ok shown →
      (names.filter survivesListing).Sublist shown) ∧
    ((∀ name ∈ names, survivesListing name = true) →
      t.selectChanged start (.finished (listing names) errors 0) = .ok names) := by
  have hchanged : t.selectChanged start (.finished (listing names) errors 0) =
      (t.selectLines start (names.map listedName)).mapError .file := by
    rw [← lines_listing]
    rfl
  rw [hchanged]
  constructor
  · intro shown h
    rw [selectLines_eq_ok (mapError_eq_ok.mp h)]
    exact filter_survivesListing_sublist hw hlisted
  · intro hall
    exact mapError_eq_ok.mpr (selectLines_listed hw hlisted hall)

namespace Sample

theorem linkedTree_isFile : linkedTree.isFile (linkedTree.pathOf root "a.py") = .ok true := by
  have hlocate : linkedTree.locate (linkedTree.pathOf root "a.py") = .ok (linkedTree.endAt ["a.py"]) :=
    locate_name (by decide) (by decide) (by decide) (by decide) (.inr ⟨[], rfl⟩)
  exact isFile_of_locate hlocate

theorem isListable_a : IsListable "a.py" where
  canonical := by decide
  relative := by decide
  plain := by decide
  slash := by decide

theorem selectChanged_listing_linkedTree :
    linkedTree.selectChanged root (.finished (listing ["a.py"]) "" 0) = .ok ["a.py"] := by
  refine (selectChanged_listing linkedTree_worksIn ?_ "").2 ?_
  · rw [List.forall_mem_singleton]
    exact ⟨isListable_a, linkedTree_isFile⟩
  · rw [List.forall_mem_singleton]
    decide

def accentedTree : Tree := ⟨"/w", [("é.py", .file [])]⟩

theorem isListable_accented : IsListable "é.py" where
  canonical := by decide
  relative := by decide
  plain := by decide
  slash := by decide

theorem accentedTree_isFile : accentedTree.isFile (accentedTree.pathOf root "é.py") = .ok true := by
  have hlocate : accentedTree.locate (accentedTree.pathOf root "é.py") = .ok (accentedTree.endAt ["é.py"]) :=
    locate_name (by decide) (by decide) (by decide) (by decide) (.inr ⟨[], rfl⟩)
  exact isFile_of_locate hlocate

def quotedName : String := "\"\\303\\251.py\""

theorem accentedTree_quoted : accentedTree.isFile (accentedTree.pathOf root quotedName) = .ok false := by
  have hlocate : accentedTree.locate (accentedTree.pathOf root quotedName) =
      .ok (accentedTree.endAt [quotedName]) :=
    locate_name (by decide) (by decide) (by decide) (by decide) (.inl rfl)
  exact isFile_of_free hlocate

/-- A changed file is missed if its name is listed between quotes. -/
theorem selectChanged_misses_quoted :
    IsListable "é.py" ∧ accentedTree.isFile (accentedTree.pathOf root "é.py") = .ok true ∧
      accentedTree.selectChanged root (.finished (listing ["é.py"]) "" 0) = .ok [] := by
  have hlisting : Text.lines (Text.universalNewlines (listing ["é.py"])) = [quotedName] := by
    decide
  have htrim : Text.trim quotedName = quotedName := by decide
  have hquoted := accentedTree_quoted
  rw [Tree.pathOf] at hquoted
  refine ⟨isListable_accented, accentedTree_isFile, ?_⟩
  rw [Tree.selectChanged, if_neg (by decide), hlisting, Tree.selectLines]
  simp only [htrim, hquoted]
  rfl

end Sample

end JudgedLint.Workspace
