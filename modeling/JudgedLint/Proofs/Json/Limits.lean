import JudgedLint.Proofs.Json.Roundtrip

/-! Texts that keep within the limits of a reader. They need not be JSON: it is enough that, outside
quotes, no more brackets are open at once than the reader takes, and no more digits stand in a row.
Reading such a text may fail, but for no limit. -/
namespace JudgedLint.Json

/-- Where in a text a scanner stands that knows brackets, quotes and digits. -/
inductive Spot where
  /-- Outside quotes, behind so many digits in a row. -/
  | outside (run : Nat)
  | quoted
  | escaped

/-- Whether a text keeps within the limits, where `depth` more brackets may be opened. -/
def fits (digits : Nat) : Spot → Nat → List Char → Bool
  | _, _, [] => true
  | .quoted, depth, c :: cs =>
    fits digits (if c == '"' then .outside 0 else if c == '\\' then .escaped else .quoted) depth cs
  | .escaped, depth, _ :: cs => fits digits .quoted depth cs
  | .outside run, depth, c :: cs =>
    if c == '"' then fits digits .quoted depth cs
    else if c == '[' || c == '\x7b' then
      match depth with
      | 0 => false
      | depth + 1 => fits digits (.outside 0) depth cs
    else if c == ']' || c == '\x7d' then fits digits (.outside 0) (depth + 1) cs
    else if c.isDigit then run < digits && fits digits (.outside (run + 1)) depth cs
    else fits digits (.outside 0) depth cs

/-- The characters that a scanner heeds outside quotes, apart from digits. -/
def marks : List Char := ['"', '[', '\x7b', ']', '\x7d']

variable {l : Limits} {digits depth run run' fuel : Nat} {c : Char} {cs ds rest : List Char} {α β : Type}

theorem isDigit_notMem_marks (h : c.isDigit = true) : c ∉ marks := by
  intro hmem
  simp only [marks, List.mem_cons, List.not_mem_nil, or_false] at hmem
  rcases hmem with rfl | rfl | rfl | rfl | rfl <;> exact absurd h (by decide)

theorem fits_unmarked (h : c ∉ marks) : fits digits (.outside run) depth (c :: cs) =
    if c.isDigit then run < digits && fits digits (.outside (run + 1)) depth cs
    else fits digits (.outside 0) depth cs := by
  simp only [marks, List.mem_cons, List.not_mem_nil, or_false, not_or] at h
  obtain ⟨hquote, hbracket, hbrace, hclosing, hclosing'⟩ := h
  simp [fits, hquote, hbracket, hbrace, hclosing, hclosing']

theorem fits_of_le (hle : run' ≤ run) (h : fits digits (.outside run) depth cs = true) :
    fits digits (.outside run') depth cs = true := by
  induction cs generalizing run run' with
  | nil => rfl
  | cons c cs ih =>
    by_cases hc : c ∈ marks
    · simp only [marks, List.mem_cons, List.not_mem_nil, or_false] at hc
      rcases hc with rfl | rfl | rfl | rfl | rfl <;> exact h
    · rw [fits_unmarked hc] at h ⊢
      split at h
      · next hdigit =>
        rw [if_pos hdigit]
        simp only [Bool.and_eq_true, decide_eq_true_eq] at h ⊢
        exact ⟨by omega, ih (by omega) h.2⟩
      · next hdigit =>
        rw [if_neg hdigit]
        exact h

theorem fits_drop (hds : ∀ c ∈ ds, c ∉ marks) (h : fits digits (.outside run) depth (ds ++ cs) = true) :
    fits digits (.outside 0) depth cs = true := by
  induction ds generalizing run with
  | nil => exact fits_of_le (Nat.zero_le run) h
  | cons c ds ih =>
    have hrest : ∀ c ∈ ds, c ∉ marks := fun c hc => hds c (List.mem_cons_of_mem _ hc)
    rw [List.cons_append, fits_unmarked (hds c List.mem_cons_self)] at h
    split at h
    · rw [Bool.and_eq_true] at h
      exact ih hrest h.2
    · exact ih hrest h

theorem length_le_of_fits (hds : ∀ c ∈ ds, c.isDigit = true) (hne : ds ≠ [])
    (h : fits digits (.outside run) depth (ds ++ cs) = true) : run + ds.length ≤ digits := by
  induction ds generalizing run with
  | nil => exact absurd rfl hne
  | cons c ds ih =>
    have hdigit := hds c List.mem_cons_self
    rw [List.cons_append, fits_unmarked (isDigit_notMem_marks hdigit), if_pos hdigit] at h
    simp only [Bool.and_eq_true, decide_eq_true_eq] at h
    rw [List.length_cons]
    cases ds with
    | nil => exact h.1
    | cons c' ds =>
      have hle := ih (fun c hc => hds c (List.mem_cons_of_mem _ hc)) (List.cons_ne_nil c' ds) h.2
      omega

theorem fits_opening (hc : c = '[' ∨ c = '\x7b') (h : fits digits (.outside run) depth (c :: cs) = true) :
    ∃ inner, depth = inner + 1 ∧ fits digits (.outside 0) inner cs = true := by
  cases depth with
  | zero => rcases hc with rfl | rfl <;> cases h
  | succ inner =>
    refine ⟨inner, rfl, ?_⟩
    rcases hc with rfl | rfl <;> exact h

theorem fits_closing (hc : c = ']' ∨ c = '\x7d') (h : fits digits (.outside run) depth (c :: cs) = true) :
    fits digits (.outside 0) (depth + 1) cs = true := by
  rcases hc with rfl | rfl <;> exact h

theorem fits_skipSpace (h : fits digits (.outside run) depth cs = true) :
    fits digits (.outside 0) depth (skipSpace cs) = true := by
  rw [← List.takeWhile_append_dropWhile (p := isSpace) (l := cs)] at h
  refine fits_drop ?_ h
  intro c hc hmark
  have hspace := List.all_eq_true.mp List.all_takeWhile c hc
  simp only [marks, List.mem_cons, List.not_mem_nil, or_false] at hmark
  rcases hmark with rfl | rfl | rfl | rfl | rfl <;> cases hspace

/-! ### What reading leaves -/

def Fault.isLimit : Fault → Bool
  | .nesting _ | .longNumber _ => true
  | _ => false

theorem ReadError.isMalformed_eq (e : ReadError) : e.isMalformed = !e.fault.isLimit := by
  unfold isMalformed
  cases e.fault <;> rfl

/-- Reading has failed for no limit, and if it has not failed, it has left a text that still keeps within
them. -/
def Keeps (digits depth : Nat) : Except Stop (α × List Char) → Prop
  | .ok (_, rest) => fits digits (.outside 0) depth rest = true
  | .error stop => stop.1.isLimit = false

theorem Keeps.bind {outer : Nat} {r : Except Stop (α × List Char)} {f : α × List Char → Except Stop (β × List Char)}
    (hr : Keeps digits depth r)
    (hf : ∀ a rest, fits digits (.outside 0) depth rest = true → Keeps digits outer (f (a, rest))) :
    Keeps digits outer (r >>= f) := by
  cases r with
  | error stop => exact hr
  | ok p => exact hf p.1 p.2 hr

theorem fits_quoted (hquote : c ≠ '"') (hbackslash : c ≠ '\\') :
    fits digits .quoted depth (c :: cs) = fits digits .quoted depth cs := by
  simp [fits, hquote, hbackslash]

theorem hexValue?_notQuote {n : Nat} (h : Text.hexValue? c = some n) : c ≠ '"' ∧ c ≠ '\\' := by
  constructor
  · rintro rfl
    cases h
  · rintro rfl
    cases h

theorem fits_hexQuad {code : Nat} (h : fits digits .quoted depth cs = true)
    (hquad : hexQuad? cs = some (code, rest)) : fits digits .quoted depth rest = true := by
  unfold hexQuad? at hquad
  split at hquad
  · next a b c d rest =>
    split at hquad
    · cases hquad
    · obtain ⟨n, hn, hquad⟩ := Option.map_eq_some_iff.mp hquad
      cases hquad
      simp only [Text.hexNumber?, Text.numeral?, List.foldl_cons, List.foldl_nil, Option.bind_eq_bind,
        Option.bind_eq_some_iff] at hn
      obtain ⟨_, ⟨_, ⟨_, ⟨_, _, va, ha, _⟩, vb, hb, _⟩, vc, hc, _⟩, vd, hd, _⟩ := hn
      rwa [fits_quoted (hexValue?_notQuote ha).1 (hexValue?_notQuote ha).2,
        fits_quoted (hexValue?_notQuote hb).1 (hexValue?_notQuote hb).2,
        fits_quoted (hexValue?_notQuote hc).1 (hexValue?_notQuote hc).2,
        fits_quoted (hexValue?_notQuote hd).1 (hexValue?_notQuote hd).2] at h
  · cases hquad

theorem textBody_keeps {whole : List Char} (h : fits digits .quoted depth cs = true) :
    Keeps digits depth (textBody l whole fuel cs) := by
  induction fuel generalizing cs with
  | zero => rfl
  | succ fuel ih =>
    have hnext : ∀ (f : List Char → List Char) {cs}, fits digits .quoted depth cs = true →
        Keeps digits depth (do let p ← textBody l whole fuel cs; return (f p.1, p.2)) := by
      intro f cs hcs
      exact (ih hcs).bind fun text tail htail => htail
    cases cs with
    | nil => rfl
    | cons c rest =>
      -- the readings that end here are closed first, and the last goal goes on
      simp only [textBody]
      split
      · next hquote =>
        rw [eq_of_beq hquote] at h
        exact h
      rename_i hquote
      split
      · rfl
      split
      · next hbackslash =>
        rw [fits_quoted (by simpa using hquote) (by simpa using hbackslash)] at h
        exact hnext _ h
      rename_i hbackslash
      obtain rfl : c = '\\' := by simpa using hbackslash
      split
      · rfl
      rename_i e after
      have hafter : fits digits .quoted depth after = true := h
      split
      · split
        · rfl
        · exact hnext _ hafter
      split
      · rfl
      rename_i code after' hquad
      have hafter' := fits_hexQuad hafter hquad
      have hsingle : Keeps digits depth (do
        if (!l.unpaired && Text.isSurrogate code) = true then
            throw (Fault.unpairedSurrogate, after'.length)
        let p ← textBody l whole fuel after'
        return (Text.charOfCode code :: p.1, p.2)) := by
        split
        · rfl
        · exact hnext _ hafter'
      split
      · next second _ =>
        have hsecond : fits digits .quoted depth second = true := hafter'
        split
        · exact hsingle
        split
        · rfl
        · next low beyond hlow =>
          split
          · exact hnext _ (fits_hexQuad hsecond hlow)
          · exact hsingle
      · exact hsingle

/-- What is read in front of the rest is of no concern to the scanner, apart from its digits. -/
def Unmarked (cs rest : List Char) : Prop := ∃ ds, ds ++ rest = cs ∧ ∀ c ∈ ds, c ∉ marks

theorem Unmarked.refl (cs : List Char) : Unmarked cs cs := ⟨[], rfl, by simp⟩

theorem Unmarked.cons {c : Char} {cs rest : List Char} (hc : c ∉ marks) (h : Unmarked cs rest) :
    Unmarked (c :: cs) rest := by
  obtain ⟨ds, rfl, hds⟩ := h
  refine ⟨c :: ds, rfl, ?_⟩
  intro c' hc'
  rcases List.mem_cons.mp hc' with rfl | hc'
  · exact hc
  · exact hds c' hc'

theorem Unmarked.trans {cs mid rest : List Char} (h : Unmarked cs mid) (h' : Unmarked mid rest) :
    Unmarked cs rest := by
  obtain ⟨ds, rfl, hds⟩ := h
  induction ds with
  | nil => exact h'
  | cons c ds ih =>
    exact .cons (hds c List.mem_cons_self) (ih fun c hc => hds c (List.mem_cons_of_mem _ hc))

theorem Unmarked.fits (hrest : Unmarked cs rest) (h : fits digits (.outside run) depth cs = true) :
    fits digits (.outside 0) depth rest = true := by
  obtain ⟨ds, rfl, hds⟩ := hrest
  exact fits_drop hds h

theorem isDigit_of_mem_takeWhile (h : c ∈ cs.takeWhile Char.isDigit) : c.isDigit = true :=
  List.all_eq_true.mp List.all_takeWhile c h

theorem unmarked_digits (cs : List Char) : Unmarked cs (cs.dropWhile Char.isDigit) :=
  ⟨cs.takeWhile Char.isDigit, List.takeWhile_append_dropWhile, fun _ hc =>
    isDigit_notMem_marks (isDigit_of_mem_takeWhile hc)⟩

theorem wholePart_eq (cs : List Char) :
    (wholePart cs).1 ++ (wholePart cs).2 = cs ∧ ∀ c ∈ (wholePart cs).1, c.isDigit = true := by
  unfold wholePart
  split
  · refine ⟨rfl, ?_⟩
    intro c hc
    rw [List.mem_singleton.mp hc]
    rfl
  · exact ⟨List.takeWhile_append_dropWhile, fun _ hc => isDigit_of_mem_takeWhile hc⟩

theorem unmarked_wholePart (cs : List Char) : Unmarked cs (wholePart cs).2 := by
  obtain ⟨heq, hdigits⟩ := wholePart_eq cs
  exact ⟨_, heq, fun c hc => isDigit_notMem_marks (hdigits c hc)⟩

theorem unmarked_fractionOf (cs : List Char) : Unmarked cs (fractionOf cs).2 := by
  unfold fractionOf
  split
  · next rest =>
    simp only
    split
    · exact .refl _
    · exact .cons (by decide) (unmarked_digits rest)
  · exact .refl _

theorem unmarked_exponentOf (cs : List Char) : Unmarked cs (exponentOf cs).2 := by
  unfold exponentOf
  split
  · next e rest =>
    split
    · next he =>
      have hmark : e ∉ marks := by
        rcases Bool.or_eq_true_iff.mp he with he | he
        · rw [eq_of_beq he]
          decide
        · rw [eq_of_beq he]
          decide
      simp only
      split
      · exact .refl _
      · split
        · exact .cons hmark (.cons (by decide) (unmarked_digits _))
        · exact .cons hmark (.cons (by decide) (unmarked_digits _))
        · exact .cons hmark (unmarked_digits _)
    · exact .refl _
  · exact .refl _

theorem words_unmarked {w : String × Json} (hw : w ∈ words) : ∀ c ∈ w.1.toList, c ∉ marks := by
  have hclear : (w.1.toList.all fun c => !marks.contains c) = true := by
    simp only [words, List.mem_cons, List.not_mem_nil, or_false] at hw
    rcases hw with rfl | rfl | rfl | rfl | rfl | rfl <;> decide
  intro c hc hmark
  have hc' := List.all_eq_true.mp hclear c hc
  rw [List.contains_iff_mem.mpr hmark] at hc'
  cases hc'

theorem word?_unmarked {v : Json} (h : word? cs = some (v, rest)) : Unmarked cs rest := by
  obtain ⟨w, hw, hfound⟩ := List.exists_of_findSome?_eq_some h
  obtain ⟨tail, htail, heq⟩ := Option.map_eq_some_iff.mp hfound
  cases heq
  unfold keyword? at htail
  split at htail
  · next hprefix =>
    cases htail
    obtain ⟨tail, rfl⟩ := List.isPrefixOf_iff_prefix.mp hprefix
    rw [← String.length_toList, List.drop_left]
    exact ⟨_, rfl, words_unmarked hw⟩
  · cases htail

theorem not_isExceeded (hl : l.boundsAll = false) (negative isWhole : Bool) {n : Nat} (hn : n ≤ l.digits) :
    ¬l.isExceeded negative isWhole n = true := by
  simp only [Limits.isExceeded, hl, Bool.false_eq_true, if_false, Bool.and_eq_true, decide_eq_true_eq]
  omega

theorem number_keeps (hl : l.boundsAll = false) {negative : Bool} {here : List Char}
    (h : fits l.digits (.outside run) depth cs = true) :
    Keeps l.digits depth (number l negative here cs) := by
  have hrest := (unmarked_wholePart cs).trans
    ((unmarked_fractionOf (wholePart cs).2).trans (unmarked_exponentOf _))
  obtain ⟨heq, hdigits⟩ := wholePart_eq cs
  simp only [number]
  split
  · rfl
  · next n hn =>
    have hne : (wholePart cs).1 ≠ [] := (Text.decimalNumber?_eq_some.mp hn).1
    rw [← heq] at h
    have hlength := length_le_of_fits hdigits hne h
    rw [if_neg (not_isExceeded hl negative _ (by omega))]
    rw [heq] at h
    split
    · exact hrest.fits h
    · exact hrest.fits h

theorem scalar_keeps (hl : l.boundsAll = false) (h : fits l.digits (.outside run) depth cs = true) :
    Keeps l.digits depth (scalar l fuel cs) := by
  unfold scalar
  split
  · next r hword => exact (word?_unmarked hword).fits h
  · split
    · next rest _ =>
      have hquoted : fits l.digits .quoted depth rest = true := h
      exact (textBody_keeps hquoted).bind fun text rest hrest => hrest
    · next rest _ => exact number_keeps hl (Unmarked.fits (.cons (by decide) (.refl rest)) h)
    · exact number_keeps hl h

def ValuesKeep (l : Limits) (fuel : Nat) : Prop := ∀ {depth run cs},
  fits l.digits (.outside run) depth cs = true → Keeps l.digits depth (value l fuel depth cs)

def ItemsKeep (l : Limits) (fuel : Nat) : Prop := ∀ {depth run cs},
  fits l.digits (.outside run) depth cs = true → Keeps l.digits (depth + 1) (itemList l fuel depth cs)

def MembersKeep (l : Limits) (fuel : Nat) : Prop := ∀ {depth run cs},
  fits l.digits (.outside run) depth cs = true → Keeps l.digits (depth + 1) (memberList l fuel depth cs)

theorem valuesKeep_succ (hl : l.boundsAll = false) (hitems : ItemsKeep l fuel)
    (hmembers : MembersKeep l fuel) : ValuesKeep l (fuel + 1) := by
  intro depth run cs h
  simp only [value]
  split
  · next rest =>
    obtain ⟨inner, rfl, hrest⟩ := fits_opening (.inl rfl) h
    have hskip := fits_skipSpace hrest
    simp only
    split
    · next heq =>
      rw [heq] at hskip
      exact fits_closing (.inl rfl) hskip
    · exact (hitems hskip).bind fun vs rest hrest => hrest
  · next rest =>
    obtain ⟨inner, rfl, hrest⟩ := fits_opening (.inr rfl) h
    have hskip := fits_skipSpace hrest
    simp only
    split
    · next heq =>
      rw [heq] at hskip
      exact fits_closing (.inr rfl) hskip
    · exact (hmembers hskip).bind fun ms rest hrest => hrest
  · exact scalar_keeps hl h

theorem fits_separator (hc : c ∉ marks) (h : fits digits (.outside run) depth (c :: cs) = true) :
    fits digits (.outside 0) depth (skipSpace cs) = true :=
  fits_skipSpace (Unmarked.fits (.cons hc (.refl cs)) h)

theorem itemsKeep_succ (hvalue : ValuesKeep l fuel) (hitems : ItemsKeep l fuel) :
    ItemsKeep l (fuel + 1) := by
  intro depth run cs h
  simp only [itemList]
  refine (hvalue h).bind ?_
  intro v rest hrest
  have hskip := fits_skipSpace hrest
  simp only
  split
  · next heq =>
    rw [heq] at hskip
    exact fits_closing (.inl rfl) hskip
  · next heq =>
    rw [heq] at hskip
    exact (hitems (fits_separator (by decide) hskip)).bind fun vs rest hrest => hrest
  · rfl

theorem membersKeep_succ (hvalue : ValuesKeep l fuel) (hmembers : MembersKeep l fuel) :
    MembersKeep l (fuel + 1) := by
  intro depth run cs h
  simp only [memberList]
  split
  · next rest =>
    have hquoted : fits l.digits .quoted depth rest = true := h
    refine (textBody_keeps hquoted).bind ?_
    intro text rest hrest
    have hskip := fits_skipSpace hrest
    simp only
    split
    · next heq =>
      rw [heq] at hskip
      refine (hvalue (fits_separator (by decide) hskip)).bind ?_
      intro v rest hrest
      have hskip := fits_skipSpace hrest
      simp only
      split
      · next heq =>
        rw [heq] at hskip
        exact fits_closing (.inr rfl) hskip
      · next heq =>
        rw [heq] at hskip
        exact (hmembers (fits_separator (by decide) hskip)).bind fun ms rest hrest => hrest
      · rfl
    · rfl
  · rfl

theorem reads_keep (hl : l.boundsAll = false) (fuel : Nat) :
    ValuesKeep l fuel ∧ ItemsKeep l fuel ∧ MembersKeep l fuel := by
  -- the readers call one another with less fuel, so one induction carries all three
  induction fuel with
  | zero =>
    refine ⟨?_, ?_, ?_⟩
    · intro depth run cs h
      rw [value]
      rfl
    · intro depth run cs h
      rw [itemList]
      rfl
    · intro depth run cs h
      rw [memberList]
      rfl
  | succ fuel ih =>
    obtain ⟨hvalue, hitems, hmembers⟩ := ih
    exact ⟨valuesKeep_succ hl hitems hmembers, itemsKeep_succ hvalue hitems,
      membersKeep_succ hvalue hmembers⟩

/-- A text that keeps within the limits is read, or it is malformed. -/
theorem isMalformed_of_fits {s : String} {e : ReadError} (hl : l.boundsAll = false)
    (hfits : fits l.digits (.outside 0) l.depth s.toList = true) (h : parse l s = .error e) :
    e.isMalformed = true := by
  obtain ⟨stop, hstop, rfl⟩ := mapError_eq_error.mp h
  rw [ReadError.isMalformed_eq]
  simp only [document] at hstop
  split at hstop
  · cases hstop
    rfl
  · have hkeeps := (reads_keep hl (2 * s.toList.length + 2)).1 (fits_skipSpace hfits)
    cases hvalue : value l (2 * s.toList.length + 2) l.depth (skipSpace s.toList) with
    | error stop' =>
      rw [hvalue] at hkeeps hstop
      cases hstop
      exact congrArg not hkeeps
    | ok p =>
      rw [hvalue] at hstop
      simp only [bind, Except.bind] at hstop
      split at hstop
      · cases hstop
      · cases hstop
        rfl

/-! ### Texts beyond the limits -/

theorem value_nested (rest : List Char) (hfuel : 2 * depth < fuel) :
    value l fuel depth (List.replicate (depth + 1) '[' ++ rest) =
      .error (.nesting false, rest.length + 1) := by
  induction depth generalizing fuel with
  | zero =>
    obtain ⟨fuel, rfl⟩ := Nat.exists_eq_add_of_lt hfuel
    rfl
  | succ depth ih =>
    obtain ⟨fuel, rfl⟩ : ∃ k, fuel = k + 1 + 1 := ⟨fuel - 2, by omega⟩
    have hinner := ih (show 2 * depth < fuel by omega)
    rw [List.replicate_succ, List.cons_append] at hinner ⊢
    rw [List.replicate_succ, List.cons_append, value]
    have hskip : skipSpace ('[' :: (List.replicate depth '[' ++ rest)) =
        '[' :: (List.replicate depth '[' ++ rest) := rfl
    simp only [hskip, itemList, hinner]
    rfl

theorem value_long (hl : l.boundsAll = false) (hdigits : (c :: ds).all Char.isDigit = true) (hzero : c ≠ '0')
    (hlong : l.digits < (c :: ds).length) :
    value l (fuel + 1) depth (c :: ds) = .error (.longNumber (c :: ds).length, (c :: ds).length) := by
  have hc : c.isDigit = true := List.all_eq_true.mp hdigits c List.mem_cons_self
  have hout := isDigit_notMem hc
  simp only [List.mem_cons, List.not_mem_nil, or_false, not_or] at hout
  have hsplit : (c :: ds ++ []).takeWhile Char.isDigit = c :: ds ∧ (c :: ds ++ []).dropWhile Char.isDigit = [] :=
    Text.takeWhile_digits hdigits (by simp)
  rw [List.append_nil] at hsplit
  obtain ⟨htake, hdrop⟩ := hsplit
  have hwhole : wholePart (c :: ds) = (c :: ds, []) := by
    rw [wholePart]
    · rw [htake, hdrop]
    · intro rest heq
      exact hzero (List.cons.inj heq).1
  have hnumber := Text.decimalNumber?_eq_some.mpr ⟨List.cons_ne_nil c ds, hdigits, rfl⟩
  have hlimit : l.isExceeded false true (c :: ds).length = true := by
    rw [Limits.isExceeded, hl]
    simpa using hlong
  rw [value_eq_scalar, scalar_digit hc]
  · simp only [number, hwhole, hnumber, fractionOf, exponentOf, Option.isNone_none, Bool.and_self, hlimit, if_true]
  · intro c' hc'
    cases hc'
    exact hout.2.2.2.2.2.2.2

theorem document_eq_error {stop : Stop} (hc : c ≠ '\uFEFF') (hspace : isSpace c = false)
    (h : value l (2 * (c :: cs).length + 2) l.depth (c :: cs) = .error stop) :
    document l (c :: cs) = .error stop := by
  have hskip : skipSpace (c :: cs) = c :: cs := by
    refine skipSpace_of_head ?_
    intro c' hc'
    cases hc'
    exact hspace
  have hmark : ((c :: cs).head? == some '\uFEFF') = false := by simpa using hc
  rw [document, hmark, hskip, h]
  rfl

theorem document_nested (rest : List Char) :
    document l (List.replicate (l.depth + 1) '[' ++ rest) = .error (.nesting false, rest.length + 1) := by
  have hlength : (List.replicate (l.depth + 1) '[' ++ rest).length = l.depth + 1 + rest.length := by
    rw [List.length_append, List.length_replicate]
  have hfuel : 2 * l.depth < 2 * (List.replicate (l.depth + 1) '[' ++ rest).length + 2 := by omega
  exact document_eq_error (by decide) rfl (value_nested rest hfuel)

theorem document_long (hl : l.boundsAll = false) (hdigits : (c :: ds).all Char.isDigit = true) (hzero : c ≠ '0')
    (hlong : l.digits < (c :: ds).length) :
    document l (c :: ds) = .error (.longNumber (c :: ds).length, (c :: ds).length) := by
  have hc : c.isDigit = true := List.all_eq_true.mp hdigits c List.mem_cons_self
  refine document_eq_error ?_ ?_ (value_long hl hdigits hzero hlong)
  · rintro rfl
    cases hc
  · rw [Bool.eq_false_iff]
    intro hspace
    simp only [isSpace, Bool.or_eq_true, beq_iff_eq] at hspace
    rcases hspace with ((rfl | rfl) | rfl) | rfl <;> cases hc

end JudgedLint.Json
