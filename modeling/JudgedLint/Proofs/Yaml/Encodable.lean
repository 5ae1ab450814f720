import JudgedLint.Proofs.Yaml.Double
import JudgedLint.Proofs.Yaml.Plain
import JudgedLint.Proofs.Yaml.Single
import JudgedLint.Proofs.Text.Numeral
import JudgedLint.Proofs.Text.Split

/-! What is written of a document, whatever its data are: characters that documents may have, and no line
end that a file would change. A character that a text may hold and a file may not is written as an escape,
so a document that has been printed can always be encoded. -/
namespace JudgedLint.Yaml

variable {p : Page} {cs : List Char} {c : Char} {indent : Nat} {split : Bool}

/-- All that is written is kept in a file. -/
def Page.Kept (p : Page) : Prop := ∀ c ∈ p.chars, isKept c = true

namespace Page.Kept

theorem blank : Page.blank.Kept := nofun

theorem of_chars {q : Page} (h : p.Kept) (hchars : q.chars = p.chars) : q.Kept := by
  rwa [Page.Kept, hchars]

theorem put (h : p.Kept) (hcs : ∀ c ∈ cs, isKept c = true) : (p.put cs).Kept := by
  intro c hc
  rw [Page.chars_put] at hc
  rcases List.mem_append.mp hc with hc | hc
  · exact h c hc
  · exact hcs c hc

theorem lineBreak (h : p.Kept) (hc : isKept c = true) : (p.lineBreak c).Kept := by
  intro d hd
  rw [Page.chars_lineBreak] at hd
  rcases List.mem_append.mp hd with hd | hd
  · exact h d hd
  · rwa [List.mem_singleton.mp hd]

theorem indicator (h : p.Kept) (hcs : ∀ c ∈ cs, isKept c = true) (needGap gapAfter keepsIndent : Bool) :
    (p.indicator cs needGap gapAfter keepsIndent).Kept := by
  have hput : (p.put (if p.afterGap || !needGap then cs else ' ' :: cs)).Kept := by
    refine h.put ?_
    split
    · exact hcs
    · exact List.forall_mem_cons.mpr ⟨by decide, hcs⟩
  exact hput.of_chars rfl

theorem blanks (h : p.Kept) (count : Nat) : (p.put (List.replicate count ' ')).Kept := by
  refine h.put fun c hc => ?_
  rw [List.eq_of_mem_replicate hc]
  decide

theorem indentTo (h : p.Kept) (indent : Nat) : (p.indentTo indent).Kept := by
  unfold Page.indentTo
  extract_lets q
  have hq : q.Kept := by
    simp only [q]
    split
    · exact h.lineBreak (by decide)
    · exact h
  split
  · exact (hq.blanks _).of_chars rfl
  · exact hq

end Page.Kept

/-! ### Scalars -/

theorem kept_plainRuns (groups : List (List Char)) (h : p.Kept)
    (hcs : ∀ c ∈ groups.flatten, isKept c = true) :
    (groups.foldl (plainStep indent split) p).Kept := by
  induction groups generalizing p with
  | nil => exact h
  | cons run groups ih =>
    rw [List.flatten_cons, List.forall_mem_append] at hcs
    refine ih ?_ hcs.2
    unfold plainStep
    split
    · exact (h.indentTo indent).of_chars rfl
    · exact h.put hcs.1

theorem kept_writePlain (h : p.Kept) (hcs : ∀ c ∈ cs, isKept c = true) :
    (writePlain indent split cs p).Kept := by
  by_cases hne : cs = []
  · rw [hne]
    exact h
  · rw [writePlain_eq hne]
    refine kept_plainRuns _ ?_ (by rwa [(runs_spec blankKind cs).2])
    split
    · exact h.of_chars rfl
    · have hgap : ∀ c ∈ [' '], isKept c = true := List.all_eq_true.mp (by decide)
      exact (h.put hgap).of_chars rfl

theorem kept_lineBreaks (h : p.Kept) (hcs : ∀ c ∈ cs, isKept c = true) :
    (cs.foldl (fun p b => p.lineBreak b) p).Kept := by
  induction cs generalizing p with
  | nil => exact h
  | cons c cs ih =>
    rw [List.forall_mem_cons] at hcs
    exact ih (h.lineBreak hcs.1) hcs.2

theorem kept_singleRuns (groups : List (List Char)) (first : Bool) (h : p.Kept)
    (hcs : ∀ c ∈ groups.flatten, isKept c = true) : (singleRuns indent split first groups p).Kept := by
  induction groups generalizing first p with
  | nil => exact h
  | cons run groups ih =>
    rw [List.flatten_cons, List.forall_mem_append] at hcs
    obtain ⟨hrun, hgroups⟩ := hcs
    rw [singleRuns]
    refine ih false ?_ hgroups
    split
    · split
      · exact h.indentTo indent
      · exact h.put hrun
    · split
      · refine (kept_lineBreaks ?_ hrun).indentTo indent
        split
        · exact h.lineBreak (by decide)
        · exact h
      · refine h.put fun c hc => ?_
        obtain ⟨d, hd, hc⟩ := List.mem_flatMap.mp hc
        obtain rfl : c = d := by split at hc <;> simpa using hc
        exact hrun c hd

theorem kept_writeSingle (h : p.Kept) (hcs : ∀ c ∈ cs, isKept c = true) :
    (writeSingle indent split cs p).Kept := by
  have hquote : ∀ c ∈ [Char.ofNat 39], isKept c = true := List.all_eq_true.mp (by decide)
  have hflatten : (runs gapKind cs).flatten = cs := (runs_spec gapKind cs).2
  have hruns : (singleRuns indent split true (runs gapKind cs)
      (p.indicator [Char.ofNat 39] true false false)).Kept :=
    kept_singleRuns _ true (h.indicator hquote true false false) (by rwa [hflatten])
  exact hruns.indicator hquote false false false

theorem kept_continued (h : p.Kept) (hcs : ∀ c ∈ cs, isKept c = true) (indent : Nat) :
    (continued indent cs p).Kept := by
  have hmark : ∀ c ∈ cs ++ ['\\'], isKept c = true :=
    List.forall_mem_append.mpr ⟨hcs, List.all_eq_true.mp (by decide)⟩
  exact ((h.put hmark).indentTo indent).of_chars rfl

/-- A character is written as it is, if a file can hold it, and else as an escape. -/
theorem kept_doubleFrom (size index : Nat) (pending : List Char) (h : p.Kept)
    (hpending : ∀ c ∈ pending, isKept c = true) :
    (doubleFrom indent split size index pending cs p).Kept := by
  have hmark : ∀ c ∈ ['\\'], isKept c = true := List.all_eq_true.mp (by decide)
  induction cs generalizing index pending p with
  | nil =>
    rw [doubleFrom]
    exact h.put (by simpa using hpending)
  | cons c cs ih =>
    have hreverse : ∀ c ∈ pending.reverse, isKept c = true := by simpa using hpending
    have hescaped : ((p.put pending.reverse).put (escapeCode (Text.codeOf c))).Kept :=
      (h.put hreverse).put (isKept_escapeCode _)
    rw [doubleFrom_cons]
    split
    · next hverbatim =>
      have hc := (of_isVerbatim hverbatim).1
      split
      · refine ih _ _ ?_ (List.forall_mem_singleton.mpr hc)
        split
        · exact (kept_continued h hreverse indent).put hmark
        · exact kept_continued h hreverse indent
      · exact ih _ _ h (List.forall_mem_cons.mpr ⟨hc, hpending⟩)
    · refine ih _ _ ?_ (List.forall_mem_nil _)
      split
      · split
        · exact (kept_continued hescaped (by simp) indent).put hmark
        · exact kept_continued hescaped (by simp) indent
      · exact hescaped

theorem kept_writeDouble (cs : List Char) (h : p.Kept) : (writeDouble indent split cs p).Kept := by
  have hquote : ∀ c ∈ ['"'], isKept c = true := List.all_eq_true.mp (by decide)
  exact (kept_doubleFrom cs.length 0 [] (h.indicator hquote true false false)
    (List.forall_mem_nil _)).indicator hquote false false false

theorem kept_literalLines (lines : List (List Char)) (h : p.Kept)
    (hlines : ∀ line ∈ lines, ∀ c ∈ line, isKept c = true) :
    (lines.foldl (fun p line => ((p.indentTo indent).put line).lineBreak '\n') p).Kept := by
  induction lines generalizing p with
  | nil => exact h
  | cons line lines ih =>
    rw [List.forall_mem_cons] at hlines
    exact ih (((h.indentTo indent).put hlines.1).lineBreak (by decide)) hlines.2

theorem kept_writeLiteral (h : p.Kept) (hcs : ∀ c ∈ cs, isKept c = true) :
    (writeLiteral indent cs p).Kept := by
  refine kept_literalLines _ ?_ fun line hline c hc => ?_
  · have hbar : ∀ c ∈ ['|'], isKept c = true := List.all_eq_true.mp (by decide)
    exact (h.indicator hbar true false false).lineBreak (by decide)
  · exact hcs c ((List.dropLast_sublist cs).subset (Text.mem_of_mem_splitOnChar hline hc))

theorem ordinary_of_analyze
    (h : (analyze cs).plain = true ∨ (analyze cs).single = true ∨ (analyze cs).block = true) :
    ∀ c ∈ cs, isKept c = true := by
  cases cs with
  | nil => nofun
  | cons first rest =>
    have hspecial : (first :: rest).any (!isOrdinary ·) = false := by
      cases hany : (first :: rest).any (!isOrdinary ·) with
      | false => rfl
      | true => simp [analyze, hany] at h
    intro c hc
    refine isKept_of_isOrdinary ?_
    simpa using List.any_eq_false.mp hspecial c hc

theorem kept_tagText (tag : Tag) : ∀ c ∈ (tagText tag).toList, isKept c = true := by
  have hall : Tag.names.all (fun n => n.1.toList.all isKept) = true := by decide
  have hnames : ∀ n ∈ Tag.names, ∀ c ∈ n.1.toList, isKept c = true := fun n hn =>
    List.all_eq_true.mp (List.all_eq_true.mp hall n hn)
  unfold tagText
  split
  · next name _ hfind =>
    rw [String.toList_append, List.forall_mem_append]
    exact ⟨List.all_eq_true.mp (by decide), hnames _ (List.mem_of_find?_eq_some hfind)⟩
  · exact List.all_eq_true.mp (by decide)

theorem kept_writeScalar (spot : Spot) (tag : Tag) (text : String) (h : p.Kept) :
    (writeScalar spot tag text p).Kept := by
  unfold writeScalar
  extract_lets cs a isPlain isLiteral isSingle split indent q
  have hq : q.Kept := by
    simp only [q]
    split
    · exact h
    · exact h.indicator (kept_tagText tag) true false false
  split
  · next hplain =>
    have hanalyzed : (analyze cs).plain = true := by simp_all [isPlain, a]
    exact kept_writePlain hq (ordinary_of_analyze (.inl hanalyzed))
  · split
    · next hliteral =>
      have hanalyzed : (analyze cs).block = true := by simp_all [isLiteral, a]
      exact kept_writeLiteral hq (ordinary_of_analyze (.inr (.inr hanalyzed)))
    · split
      · next hsingle =>
        have hanalyzed : (analyze cs).single = true := by simp_all [isSingle, a]
        exact kept_writeSingle hq (ordinary_of_analyze (.inr (.inl hanalyzed)))
      · exact kept_writeDouble cs hq

theorem kept_writeOther (spot : Spot) (d : Datum) (h : p.Kept) : (writeOther spot d p).Kept := by
  unfold writeOther
  split
  · exact h
  · exact kept_writeScalar spot _ _ h

/-! ### Collections -/

theorem isKept_of_isDigit (h : c.isDigit = true) : isKept c = true := by
  have hbounds : 48 ≤ c.toNat ∧ c.toNat ≤ 57 := Char.isDigit_iff_toNat.mp h
  simp only [isKept, isAllowed, Bool.or_eq_true, Bool.and_eq_true, beq_iff_eq, decide_eq_true_eq,
    bne_iff_ne, ne_eq, ← Char.toNat_inj]
  simp
  omega

theorem kept_anchorText (n : Nat) : ∀ c ∈ anchorText n, isKept c = true := by
  have hlist : anchorText n =
      "id".toList ++ (List.replicate (3 - (Nat.toDigits 10 n).length) '0' ++ Nat.toDigits 10 n) := by
    simp [anchorText, Decimal.padded, Nat.repr_eq_ofList_toDigits]
  rw [hlist, List.forall_mem_append, List.forall_mem_append]
  refine ⟨List.all_eq_true.mp (by decide), fun c hc => ?_, fun c hc => ?_⟩
  · rw [List.eq_of_mem_replicate hc]
    decide
  · exact isKept_of_isDigit (List.all_eq_true.mp (Text.all_isDigit_toDigits n) c hc)

theorem kept_alias {mark : Char} (hmark : isKept mark = true) (n : Nat) :
    ∀ c ∈ mark :: anchorText n, isKept c = true :=
  List.forall_mem_cons.mpr ⟨hmark, kept_anchorText n⟩

/-- A datum is written, with a label or without, so that all of it is kept. -/
def KeepsDatum (d : Datum) : Prop := ∀ (m : Mentions) (spot : Spot) {s : Sheet}, s.page.Kept →
  (write m spot d s).page.Kept ∧ (writeBare m spot d s).page.Kept

def KeepsItems (items : List Datum) : Prop := ∀ (m : Mentions) (indent : Nat) {s : Sheet}, s.page.Kept →
  (writeItems m indent items s).page.Kept ∧ (writeMembers m indent items s).page.Kept

def KeepsEntries (entries : List (Datum × Datum)) : Prop :=
  ∀ (m : Mentions) (indent : Nat) {s : Sheet}, s.page.Kept → (writeEntries m indent entries s).page.Kept

theorem kept_nothing {first last : Char} (h : p.Kept) (hfirst : isKept first = true)
    (hlast : isKept last = true) :
    ((p.indicator [first] true true false).indicator [last] false false false).Kept :=
  (h.indicator (List.forall_mem_singleton.mpr hfirst) true true false).indicator
    (List.forall_mem_singleton.mpr hlast) false false false

theorem kept_pair (value : Sheet → Sheet) (hvalue : ∀ {s : Sheet}, s.page.Kept → (value s).page.Kept)
    {k : Datum} (hk : KeepsDatum k) (m : Mentions) (indent : Nat) {s : Sheet} (h : s.page.Kept) :
    (if isSimpleKey m s.printed k then
      value ((write m ⟨some indent, true, true⟩ k s).on (·.indicator [':'] false false false))
    else
      value ((write m ⟨some indent, true, false⟩ k (s.on (·.indicator ['?'] true false true))).on
        fun p => (p.indentTo indent).indicator [':'] true false true)).page.Kept := by
  have hcolon : ∀ c ∈ [':'], isKept c = true := List.all_eq_true.mp (by decide)
  have hmark : (s.on (·.indicator ['?'] true false true)).page.Kept :=
    h.indicator (List.all_eq_true.mp (by decide)) true false true
  split
  · exact hvalue ((hk m _ h).1.indicator hcolon false false false)
  · exact hvalue (((hk m _ hmark).1.indentTo indent).indicator hcolon true false true)

theorem keepsItems_nil : KeepsItems [] := by
  intro m indent s h
  rw [writeItems, writeMembers]
  exact ⟨h, h⟩

theorem keepsItems_cons {d : Datum} {rest : List Datum} (hd : KeepsDatum d) (hrest : KeepsItems rest) :
    KeepsItems (d :: rest) := by
  intro m indent s h
  have hline : (s.on (·.indentTo indent)).page.Kept := h.indentTo indent
  have hdash : (s.on fun p => (p.indentTo indent).indicator ['-'] true false true).page.Kept :=
    (h.indentTo indent).indicator (List.all_eq_true.mp (by decide)) true false true
  rw [writeItems, writeMembers]
  exact ⟨(hrest m indent (hd m _ hdash).1).1, (hrest m indent
    (kept_pair (·.on (writeScalar ⟨some indent, true, false⟩ .null "null")) (kept_writeScalar _ _ _)
      hd m indent hline)).2⟩

theorem keepsEntries_nil : KeepsEntries [] := by
  intro m indent s h
  rw [writeEntries]
  exact h

theorem keepsEntries_cons {k v : Datum} {rest : List (Datum × Datum)} (hk : KeepsDatum k)
    (hv : KeepsDatum v) (hrest : KeepsEntries rest) : KeepsEntries ((k, v) :: rest) := by
  intro m indent s h
  have hline : (s.on (·.indentTo indent)).page.Kept := h.indentTo indent
  rw [writeEntries]
  exact hrest m indent (kept_pair (write m ⟨some indent, true, false⟩ v) (fun hs => (hv m _ hs).1)
    hk m indent hline)

theorem keepsDatum_other {d : Datum} (hwrite : ∀ m spot s, write m spot d s = s.on (writeOther spot d))
    (hbare : ∀ m spot s, writeBare m spot d s = s.on (writeOther spot d)) : KeepsDatum d := by
  intro m spot s h
  rw [hwrite, hbare]
  exact ⟨kept_writeOther spot d h, kept_writeOther spot d h⟩

theorem keepsDatum_list {items : List Datum} (hitems : KeepsItems items) : KeepsDatum (.list items) := by
  intro m spot s h
  have hlist : (writeList m spot items s).page.Kept := by
    rw [writeList]
    split
    · exact kept_nothing h (by decide) (by decide)
    · exact (hitems m _ h).1
  rw [write, writeBare]
  exact ⟨hlist, hlist⟩

theorem keepsDatum_set {items : List Datum} (hitems : KeepsItems items) : KeepsDatum (.set items) := by
  intro m spot s h
  have htag : (s.on (·.indicator "!!set".toList true false false)).page.Kept :=
    h.indicator (List.all_eq_true.mp (by decide)) true false false
  have hset : (writeSet m spot items s).page.Kept := by
    rw [writeSet]
    split
    · exact kept_nothing htag (by decide) (by decide)
    · exact (hitems m _ htag).2
  rw [write, writeBare]
  exact ⟨hset, hset⟩

theorem keepsDatum_map {entries : List (Datum × Datum)} (hentries : KeepsEntries entries) :
    KeepsDatum (.map entries) := by
  intro m spot s h
  have hmap : (writeMap m spot entries s).page.Kept := by
    rw [writeMap]
    split
    · exact kept_nothing h (by decide) (by decide)
    · exact hentries m _ h
  rw [write, writeBare]
  exact ⟨hmap, hmap⟩

theorem keepsDatum_labelled {label : Nat} {d : Datum} (hd : KeepsDatum d) :
    KeepsDatum (.labelled label d) := by
  intro m spot s h
  have hwritten (n : Nat) : (s.on (·.indicator ('&' :: anchorText n) true false false)).page.Kept :=
    h.indicator (kept_alias (by decide) n) true false false
  have hother : (writeBare m spot (.labelled label d) s).page.Kept := by
    rw [writeBare]
    · exact kept_writeOther spot _ h
    all_goals simp
  refine ⟨?_, hother⟩
  rw [write]
  split
  · exact (hd m spot h).2
  · next n _ =>
    split
    · exact h.indicator (kept_alias (by decide) n) true false false
    · extract_lets s'
      exact (hd m spot (s := { s' with printed := label :: s'.printed }) (hwritten n)).2

theorem keepsDatum_back (label : Nat) (isMap : Bool) : KeepsDatum (.back label isMap) := by
  intro m spot s h
  have hother : (writeBare m spot (.back label isMap) s).page.Kept := by
    rw [writeBare]
    · exact kept_writeOther spot _ h
    all_goals simp
  refine ⟨?_, hother⟩
  rw [write]
  exact h.indicator (kept_alias (by decide) _) true false false

theorem keepsDatum (d : Datum) : KeepsDatum d := by
  refine @Datum.rec KeepsDatum KeepsItems KeepsEntries (fun e => KeepsDatum e.1 ∧ KeepsDatum e.2)
    ?null (fun b => ?bool) (fun n => ?int) (fun x => ?float) (fun text => ?str) (fun bs => ?bytes)
    (fun date => ?date) (fun moment => ?moment)
    (fun _ => keepsDatum_list) (fun _ => keepsDatum_set) (fun _ => keepsDatum_map)
    (fun _ _ => keepsDatum_labelled) keepsDatum_back keepsItems_nil (fun _ _ => keepsItems_cons)
    keepsEntries_nil (fun _ _ he => keepsEntries_cons he.1 he.2) (fun _ _ hk hv => ⟨hk, hv⟩) d
  case null | bool =>
    refine keepsDatum_other (fun m spot s => ?_) (fun m spot s => ?_)
    · rw [write]
      rfl
    · rw [writeBare] <;> simp
  all_goals
    refine keepsDatum_other (fun m spot s => ?_) (fun m spot s => ?_)
    · rw [write] <;> simp
    · rw [writeBare] <;> simp

/-- A document that has been printed holds characters that documents may have, and no line end that a
file would change. -/
theorem isKept_render (d : Datum) : ∀ c ∈ (render d).toList, isKept c = true := by
  have hpage := ((keepsDatum d (mentions d ⟨[], [], true⟩) ⟨none, false, false⟩
    (s := ⟨Page.blank, []⟩) Page.Kept.blank).1).indentTo 0
  intro c hc
  rw [render, Page.text_eq, String.toList_ofList] at hc
  exact hpage c hc

theorem isStandIn_of_isKept (h : isKept c = true) : Text.isStandIn c = false := by
  cases hstand : Text.isStandIn c with
  | false => rfl
  | true =>
    have hhigh : 0x100000 ≤ c.toNat := of_decide_eq_true (Bool.and_eq_true_iff.mp hstand).1
    simp only [isKept, isAllowed, hstand, Bool.not_true, Bool.and_false, Bool.or_false, Bool.and_eq_true,
      Bool.or_eq_true, beq_iff_eq, decide_eq_true_eq] at h
    omega

/-- A document that has been printed can be encoded: no surrogate stands alone in it. -/
theorem isWellFormed_render (d : Datum) : Text.isWellFormed (render d) = true := by
  simp only [Text.isWellFormed, Bool.not_eq_true', List.any_eq_false]
  intro c hc
  rw [isStandIn_of_isKept (isKept_render d c hc)]
  exact Bool.false_ne_true

end JudgedLint.Yaml
