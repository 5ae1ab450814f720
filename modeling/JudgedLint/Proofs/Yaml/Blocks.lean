import JudgedLint.Proofs.Yaml.Written

/-! Collections as a printer writes them: the entries of a mapping and the items of a list each on
lines of their own, a list inside a mapping at the mapping's own column. -/
namespace JudgedLint.Yaml

open Lexer

variable {n : Nat} {src : List Char} {d : Datum} {p : Page} {printed : List Nat} {word : String}
  {inMapping : Bool} {items : List Datum} {entries : List (Datum × Datum)}

/-- A key that is written as it is and is read as text. -/
structure PlainKey (d : Datum) (word : String) : Prop where
  text : d = .str word
  isKey : IsKey word.toList
  looks : Tag.ofPlain word = .str
  plain : (analyze word.toList).plain = true

/-- Data that are written without tags and labels in blocks that go on at a column, and are read
back: scalars that last, lists of such data, and mappings from distinct words to them. -/
inductive Lasting : Nat → Datum → Prop
  | scalar {n : Nat} {d : Datum} {tag : Tag} {text : String} (h : LastingScalar d tag text)
      (hn : n + 2 < lineWidth) : Lasting n d
  | list {n : Nat} {items : List Datum} (h : ∀ d ∈ items, Lasting (n + 2) d) :
      Lasting n (.list items)
  | map {n : Nat} {entries : List (Datum × Datum)} (keys : ∀ e ∈ entries, ∃ word, PlainKey e.1 word)
      (distinct : (entries.map (·.1)).Nodup) (values : ∀ e ∈ entries, Lasting (n + 2) e.2) :
      Lasting n (.map entries)

mutual
/-- The tokens of a datum that stands in a mapping, or else in a list. -/
def tokensOf (inMapping : Bool) : Datum → List Token
  | .list items =>
    if items.isEmpty then [.flowSequenceStart, .flowSequenceEnd]
    else if inMapping then itemTokens items
    else .blockSequenceStart :: itemTokens items ++ [.blockEnd]
  | .map entries =>
    if entries.isEmpty then [.flowMappingStart, .flowMappingEnd]
    else .blockMappingStart :: entryTokens entries ++ [.blockEnd]
  | d =>
    match scalarText? d with
    | some (tag, text) => [.scalar text (styleOf tag text)]
    | none => []

def itemTokens : List Datum → List Token
  | [] => []
  | d :: rest => .blockEntry :: tokensOf false d ++ itemTokens rest

def entryTokens : List (Datum × Datum) → List Token
  | [] => []
  | (k, v) :: rest => keyTokens (k.str?.getD "").toList ++ tokensOf true v ++ entryTokens rest
end

/-- What is written of a datum is read as its tokens, up to the next line. -/
def Scans (n : Nat) (inMapping : Bool) (src : List Char) (ts : List Token) : Prop :=
  ∀ (m : Nat) (more : List Char) (tokens : List Token) (indents : List Int) (i k column : Nat),
    n < column → (inMapping = false → column = n + 1) → m ≤ n → Calm more → ∃ j l,
      Reaches
        (outside ⟨src ++ (lineStart m ++ more), i, k, column⟩ tokens n indents (!inMapping))
        (outside ⟨more, j, l, m⟩ (tokens ++ ts) n indents true)

/-- A datum is written behind a colon or a dash so that it is read as its tokens. -/
def WrittenIn (n : Nat) (inMapping : Bool) (d : Datum) : Prop :=
  ∀ (m : Mentions) (p : Page) (printed : List Nat), p.afterGap = false → p.atIndent = !inMapping →
    (inMapping = false → p.column = n + 1) → ∃ src q,
      write m ⟨some n, inMapping, false⟩ d ⟨p, printed⟩ = ⟨q, printed⟩ ∧
      q.chars = p.chars ++ src ∧ q.atIndent = false ∧ (∀ c ∈ src, isKept c = true) ∧
      isGap (src.headD endChar) = true ∧ Scans n inMapping src (tokensOf inMapping d)

theorem write_scalar {tag : Tag} {text : String} (h : scalarText? d = some (tag, text)) (m : Mentions)
    (spot : Spot) (s : Sheet) : write m spot d s = s.on (writeScalar spot tag text) := by
  have hother : s.on (writeOther spot d) = s.on (writeScalar spot tag text) := by
    simp [Sheet.on, writeOther, h]
  cases d with
  | null =>
    cases h
    rw [write]
  | bool b =>
    cases h
    rw [write]
  | int | float | str | bytes | date | moment =>
    rw [write]
    · exact hother
    all_goals simp
  | list | set | map | labelled | back => cases h

theorem tokensOf_scalar {tag : Tag} {text : String} (h : scalarText? d = some (tag, text))
    (inMapping : Bool) : tokensOf inMapping d = [.scalar text (styleOf tag text)] := by
  cases d with
  | null | bool | int | float | str | bytes | date | moment => simp only [tokensOf, h]
  | list | set | map | labelled | back => cases h

theorem reaches_blank {rest : List Char} {tokens : List Token} {indent : Int} {indents : List Int}
    {keyAllowed : Bool} (h : Calm rest) (i k column : Nat) :
    Reaches (outside ⟨' ' :: rest, i, k, column⟩ tokens indent indents keyAllowed)
      (outside ⟨rest, i + 1, k, column + 1⟩ tokens indent indents keyAllowed) := by
  refine Reaches.of_settle (settle_blanks h 1 i k column) ?_
  simp

theorem reaches_line {rest : List Char} {tokens : List Token} {indent : Int} {indents : List Int}
    {keyAllowed : Bool} (h : Calm rest) (i k column : Nat) :
    Reaches (outside ⟨lineStart n ++ rest, i, k, column⟩ tokens indent indents keyAllowed)
      (outside ⟨rest, i + 1 + n, k + 1, n⟩ tokens indent indents true) := by
  refine Reaches.of_settle (settle_newLine h n i k column) ?_
  simp [lineStart]
  omega

theorem Page.gap_of_not_afterGap (h : p.afterGap = false) : p.gap = [' '] := by
  rw [Page.gap, h]
  rfl

theorem writtenIn_scalar {tag : Tag} {text : String} (h : LastingScalar d tag text)
    (hn : n + 2 < lineWidth) (inMapping : Bool) : WrittenIn n inMapping d := by
  intro m p printed hgap _ _
  obtain ⟨src, hchars, hcalm, hkept, hreads, hindent⟩ := writeScalar_reads h hn inMapping p
  rw [write_scalar h.written, tokensOf_scalar h.written]
  refine ⟨' ' :: src, _, rfl, ?_, hindent, ?_, (by decide : isGap ' ' = true), ?_⟩
  · rw [hchars, Page.gap_of_not_afterGap hgap]
    rfl
  · intro c hc
    rcases List.mem_cons.mp hc with rfl | hc
    · decide
    · exact hkept c hc
  · intro m more tokens indents i k column hcolumn _ hm hmore
    obtain ⟨j, l, hreaches⟩ := hreads m more tokens indents (!inMapping) (i + 1) k (column + 1)
      (by omega) hm hmore
    exact ⟨j, l, (reaches_blank (hcalm _) i k column).trans hreaches⟩

/-! Entries. -/

theorem foldl_plainStep (n : Nat) (groups : List (List Char)) (p : Page) :
    (groups.foldl (plainStep n false) p).chars = p.chars ++ groups.flatten ∧
    (groups.foldl (plainStep n false) p).atIndent = p.atIndent ∧
    (groups.foldl (plainStep n false) p).afterGap = p.afterGap := by
  induction groups generalizing p with
  | nil => simp
  | cons run groups ih =>
    have hstep : plainStep n false p run = p.put run := by simp [plainStep]
    obtain ⟨hchars, hindent, hgap⟩ := ih (p.put run)
    rw [List.foldl_cons, hstep, hchars]
    exact ⟨by simp, hindent, hgap⟩

theorem analyze_of_plain {cs : List Char} (hne : cs ≠ []) (h : (analyze cs).plain = true) :
    (analyze cs).isEmpty = false ∧ (analyze cs).multiline = false := by
  obtain ⟨c, cs, rfl⟩ := List.exists_cons_of_ne_nil hne
  refine ⟨rfl, ?_⟩
  simp only [analyze, Bool.not_eq_true', Bool.or_eq_false_iff] at h
  exact h.1.2

theorem write_key (h : PlainKey d word) (m : Mentions) (s : Sheet) (hgap : s.page.afterGap = true) :
    ∃ q, write m ⟨some n, true, true⟩ d s = ⟨q, s.printed⟩ ∧ q.chars = s.page.chars ++ word.toList ∧
      q.atIndent = false ∧ q.afterGap = false := by
  obtain rfl := h.text
  have hne := h.isKey.nonempty
  obtain ⟨hempty, hmultiline⟩ := analyze_of_plain hne h.plain
  have hwrite : writeScalar ⟨some n, true, true⟩ .str word s.page =
      writePlain (n + 2) false word.toList s.page := by
    simp [writeScalar, h.looks, h.plain, hempty, hmultiline, deeper]
  obtain ⟨hchars, hindent, hgap'⟩ := foldl_plainStep (n + 2) (runs blankKind word.toList)
    { s.page with afterGap := false, atIndent := false }
  rw [(runs_spec blankKind word.toList).2, Page.chars_flags] at hchars
  refine ⟨_, write_scalar rfl m _ s, ?_, ?_, ?_⟩
  all_goals rw [hwrite, writePlain_eq hne, hgap, if_pos rfl]
  · exact hchars
  · exact hindent
  · exact hgap'

theorem isSimpleKey_of_plainKey (h : PlainKey d word) (m : Mentions) :
    isSimpleKey m printed d = true := by
  obtain rfl := h.text
  obtain ⟨hempty, hmultiline⟩ := analyze_of_plain h.isKey.nonempty h.plain
  have htag : (tagText .str).length = 5 := by decide
  have hshort : 0 + (tagText .str).length + word.length < 128 := by
    have hlength := h.isKey.short
    rw [String.length_toList] at hlength
    omega
  simpa [isSimpleKey, scalarText?, Datum.bare, hempty, hmultiline] using hshort

/-- Where the first of some entries or items is put. -/
structure LineOf (n : Nat) (p : Page) (lead : List Char) : Prop where
  chars : (p.indentTo n).chars = p.chars ++ lead
  column : (p.indentTo n).column = n
  afterGap : (p.indentTo n).afterGap = true
  atIndent : (p.indentTo n).atIndent = true

theorem lineOf_newLine (h : p.atIndent = false) : LineOf n p (lineStart n) := by
  have hline := Page.indentTo_newLine (p := p) (n := n) (.inl h)
  exact ⟨hline.chars, hline.column, hline.afterGap, hline.atIndent⟩

/-- Entries or items are read from the first one on, and their block stays open. -/
def ScansFrom (t : Token) (n : Nat) (src : List Char) (ts : List Token) : Prop :=
  ∀ (m : Nat) (more : List Char) (tokens : List Token) (indent : Int) (indents : List Int)
    (i k : Nat), indent ≤ n → m ≤ n → Calm more → ∃ j l,
      Reaches (outside ⟨src ++ (lineStart m ++ more), i, k, n⟩ tokens indent indents true)
        (outside ⟨more, j, l, m⟩ (tokens ++ opened t indent n ++ ts) n (around indent indents n) true)

variable {ts us : List Token} {src' : List Char} {t : Token}

theorem ScansFrom.append (h : ScansFrom t n src ts) (hcalm : ∀ rest, Calm (src' ++ rest))
    (h' : ScansFrom t n src' us) : ScansFrom t n (src ++ (lineStart n ++ src')) (ts ++ us) := by
  intro m more tokens indent indents i k hindent hm hmore
  obtain ⟨j, l, hfirst⟩ := h n (src' ++ (lineStart m ++ more)) tokens indent indents i k hindent
    (Nat.le_refl n) (hcalm _)
  obtain ⟨j', l', hrest⟩ := h' m more (tokens ++ opened t indent n ++ ts) n (around indent indents n) j l
    (Int.le_refl n) hm hmore
  have hopened : opened t n n = [] := if_neg (Int.lt_irrefl n)
  have haround : around n (around indent indents n) n = around indent indents n :=
    if_neg (Int.lt_irrefl n)
  rw [hopened, haround, List.append_nil] at hrest
  refine ⟨j', l', ?_⟩
  simp only [List.append_assoc] at hfirst hrest ⊢
  exact hfirst.trans hrest

theorem isGap_append (h : isGap (src.headD endChar) = true) (m : Nat) (more : List Char) :
    isGap ((src ++ (lineStart m ++ more)).headD endChar) = true := by
  cases src with
  | nil => exact (by decide : isGap '\n' = true)
  | cons c src => exact h

theorem scansFrom_entry {word : List Char} (hword : IsKey word)
    (hgap : isGap (src.headD endChar) = true) (h : Scans n true src ts) :
    ScansFrom .blockMappingStart n (word ++ ':' :: src) (keyTokens word ++ ts) := by
  intro m more tokens indent indents i k hindent hm hmore
  obtain ⟨j, l, hvalue⟩ := h m more (tokens ++ opened .blockMappingStart indent n ++ keyTokens word)
    (around indent indents n) (i + word.length + 1) k (n + word.length + 1) (by omega) nofun hm hmore
  have hkey := @reaches_key n i k (src ++ (lineStart m ++ more)) word tokens indent indents hword
    (isGap_append hgap m more) hindent
  refine ⟨j, l, ?_⟩
  simp only [List.append_assoc, List.cons_append, Bool.not_true] at hkey hvalue ⊢
  exact hkey.trans hvalue

theorem scansFrom_item (hgap : isGap (src.headD endChar) = true) (h : Scans n false src ts) :
    ScansFrom .blockSequenceStart n ('-' :: src) (.blockEntry :: ts) := by
  intro m more tokens indent indents i k hindent hm hmore
  obtain ⟨j, l, hitem⟩ := h m more (tokens ++ opened .blockSequenceStart indent n ++ [.blockEntry])
    (around indent indents n) (i + 1) k (n + 1) (by omega) (fun _ => rfl) hm hmore
  have hdash := @reaches_dash n i k (src ++ (lineStart m ++ more)) tokens indent indents
    (isGap_append hgap m more) hindent
  refine ⟨j, l, ?_⟩
  simp only [List.append_assoc, List.cons_append, List.nil_append, Bool.not_false] at hdash hitem ⊢
  exact hdash.trans hitem

/-- Entries or items that have been put on lines at a column, with what is read of them. -/
structure WrittenFrom (t : Token) (n : Nat) (p q : Page) (lead : List Char) (ts : List Token) :
    Prop where
  text : ∃ src, q.chars = p.chars ++ (lead ++ src) ∧ (∀ c ∈ src, isKept c = true) ∧
    (∀ rest, Calm (src ++ rest)) ∧ ScansFrom t n src ts
  atIndent : q.atIndent = false

theorem WrittenFrom.append {q q' : Page} {lead : List Char} (h : WrittenFrom t n p q lead ts)
    (h' : WrittenFrom t n q q' (lineStart n) us) : WrittenFrom t n p q' lead (ts ++ us) := by
  obtain ⟨src, hchars, hkept, hcalm, hscans⟩ := h.text
  obtain ⟨src', hchars', hkept', hcalm', hscans'⟩ := h'.text
  refine ⟨⟨src ++ (lineStart n ++ src'), ?_, ?_, ?_, hscans.append hcalm' hscans'⟩, h'.atIndent⟩
  · rw [hchars', hchars]
    simp only [List.append_assoc]
  · intro c hc
    rcases List.mem_append.mp hc with hc | hc
    · exact hkept c hc
    · exact (List.mem_append.mp hc).elim (isKept_lineStart c) (hkept' c)
  · intro rest
    rw [List.append_assoc]
    exact hcalm _

theorem isCalm_key {word : List Char} (h : IsKey word) (rest : List Char) : Calm (word ++ rest) := by
  obtain ⟨c, hc, hhead⟩ := h.head
  obtain ⟨cs, hcs⟩ := List.head?_eq_some_iff.mp (hhead rest)
  rw [hcs]
  exact (of_mem_keyChars c hc).2.1

theorem isKept_key {word : List Char} (h : IsKey word) : ∀ c ∈ word, isKept c = true := by
  have hall : ∀ c ∈ keyChars, isKept c = true := List.all_eq_true.mp (by decide)
  exact fun c hc => hall c (h.plain c hc)

theorem writeEntry_from {lead : List Char} {k v : Datum} (hk : PlainKey k word) (hv : WrittenIn n true v)
    (m : Mentions) (printed : List Nat) (hline : LineOf n p lead) (rest : List (Datum × Datum)) : ∃ q,
      writeEntries m n ((k, v) :: rest) ⟨p, printed⟩ = writeEntries m n rest ⟨q, printed⟩ ∧
      WrittenFrom .blockMappingStart n p q lead (keyTokens word.toList ++ tokensOf true v) := by
  obtain ⟨q, hkey, hchars, _, _⟩ := write_key (n := n) hk m ⟨p.indentTo n, printed⟩ hline.afterGap
  obtain ⟨src, q', hvalue, hchars', hindent, hkept, hgap, hscans⟩ :=
    hv m (q.indicator [':'] false false false) printed rfl (by simp) nofun
  refine ⟨q', ?_, ⟨word.toList ++ ':' :: src, ?_, ?_, ?_, scansFrom_entry hk.isKey hgap hscans⟩, hindent⟩
  · rw [writeEntries]
    simp only [Sheet.on, isSimpleKey_of_plainKey hk m, if_true, hkey, hvalue]
  · rw [hchars', Page.chars_indicator_close, hchars, hline.chars]
    simp
  · intro c hc
    rcases List.mem_append.mp hc with hc | hc
    · exact isKept_key hk.isKey c hc
    rcases List.mem_cons.mp hc with rfl | hc
    · decide
    · exact hkept c hc
  · intro rest
    rw [List.append_assoc]
    exact isCalm_key hk.isKey _

theorem writeItem_from {lead : List Char} (hd : WrittenIn n false d) (m : Mentions)
    (printed : List Nat) (hline : LineOf n p lead) (rest : List Datum) : ∃ q,
      writeItems m n (d :: rest) ⟨p, printed⟩ = writeItems m n rest ⟨q, printed⟩ ∧
      WrittenFrom .blockSequenceStart n p q lead (.blockEntry :: tokensOf false d) := by
  obtain ⟨src, q, hitem, hchars, hindent, hkept, hgap, hscans⟩ :=
    hd m ((p.indentTo n).indicator ['-'] true false true) printed rfl (by simp [hline.atIndent])
      fun _ => by simp [Page.indicator, Page.put, hline.afterGap, hline.column]
  refine ⟨q, ?_, ⟨'-' :: src, ?_, ?_, fun rest => (by decide : isCalm '-' = true),
    scansFrom_item hgap hscans⟩, hindent⟩
  · rw [writeItems]
    simp only [Sheet.on, hitem]
  · rw [hchars, Page.chars_indicator, Page.gap, hline.afterGap, hline.chars]
    simp
  · intro c hc
    rcases List.mem_cons.mp hc with rfl | hc
    · decide
    · exact hkept c hc

theorem writeEntries_from : ∀ (entries : List (Datum × Datum)), entries ≠ [] →
    (∀ e ∈ entries, ∃ word, PlainKey e.1 word) → (∀ e ∈ entries, WrittenIn n true e.2) →
    ∀ (m : Mentions) (p : Page) (printed : List Nat) (lead : List Char), LineOf n p lead → ∃ q,
      writeEntries m n entries ⟨p, printed⟩ = ⟨q, printed⟩ ∧
      WrittenFrom .blockMappingStart n p q lead (entryTokens entries)
  | [], hne, _, _, _, _, _, _, _ => absurd rfl hne
  | (k, v) :: rest, _, hkeys, hvalues, m, p, printed, lead, hline => by
    obtain ⟨word, hk⟩ : ∃ word, PlainKey k word := hkeys (k, v) List.mem_cons_self
    obtain ⟨q, heq, hfirst⟩ := writeEntry_from hk
      (hvalues (k, v) List.mem_cons_self) m printed hline rest
    have htokens : entryTokens ((k, v) :: rest) =
        keyTokens word.toList ++ tokensOf true v ++ entryTokens rest := by
      rw [entryTokens, hk.text]
      rfl
    rw [heq, htokens]
    cases rest with
    | nil => exact ⟨q, by rw [writeEntries], by simpa [entryTokens] using hfirst⟩
    | cons e rest =>
      obtain ⟨q', heq', hrest⟩ := writeEntries_from (e :: rest) (List.cons_ne_nil e rest)
        (fun e he => hkeys e (List.mem_cons_of_mem _ he))
        (fun e he => hvalues e (List.mem_cons_of_mem _ he)) m q printed (lineStart n)
        (lineOf_newLine hfirst.atIndent)
      exact ⟨q', heq', hfirst.append hrest⟩

theorem writeItems_from : ∀ (items : List Datum), items ≠ [] → (∀ d ∈ items, WrittenIn n false d) →
    ∀ (m : Mentions) (p : Page) (printed : List Nat) (lead : List Char), LineOf n p lead → ∃ q,
      writeItems m n items ⟨p, printed⟩ = ⟨q, printed⟩ ∧
      WrittenFrom .blockSequenceStart n p q lead (itemTokens items)
  | [], hne, _, _, _, _, _, _ => absurd rfl hne
  | d :: rest, _, hitems, m, p, printed, lead, hline => by
    obtain ⟨q, heq, hfirst⟩ := writeItem_from (hitems _ List.mem_cons_self) m printed hline rest
    rw [heq, itemTokens]
    cases rest with
    | nil => exact ⟨q, by rw [writeItems], by simpa [itemTokens] using hfirst⟩
    | cons e rest =>
      obtain ⟨q', heq', hrest⟩ := writeItems_from (e :: rest) (List.cons_ne_nil e rest)
        (fun e he => hitems e (List.mem_cons_of_mem _ he)) m q printed (lineStart n)
        (lineOf_newLine hfirst.atIndent)
      exact ⟨q', heq', hfirst.append hrest⟩

/-! Collections. -/

theorem writtenIn_empty {opening closing : Char} {start stop : Token}
    (hpair : EmptyPair opening closing start stop) (hkept : isKept opening = true ∧ isKept closing = true)
    (hwrite : ∀ (m : Mentions) (spot : Spot) (s : Sheet), write m spot d s =
      s.on fun p => (p.indicator [opening] true true false).indicator [closing] false false false)
    (htokens : tokensOf inMapping d = [start, stop]) : WrittenIn n inMapping d := by
  intro m p printed hgap _ _
  rw [hwrite, htokens]
  refine ⟨[' ', opening, closing], _, rfl, ?_, by simp, ?_, (by decide : isGap ' ' = true), ?_⟩
  · simp only [Page.chars_indicator_close, Page.chars_indicator, Page.gap_of_not_afterGap hgap]
    simp
  · intro c hc
    simp only [List.mem_cons, List.not_mem_nil, or_false] at hc
    rcases hc with rfl | rfl | rfl
    · decide
    · exact hkept.1
    · exact hkept.2
  · intro m more tokens indents i k column hcolumn _ hm hmore
    obtain ⟨j, l, hreaches⟩ := @reaches_empty n (i + 1) k m (column + 1) more tokens indents
      (!inMapping) opening closing start stop hpair (by omega) hmore
    refine ⟨j, l, Reaches.trans (reaches_blank ?_ i k column) hreaches⟩
    exact hpair.calm.1

/-- What stands in front of a block inside a block: a line end behind a colon, a blank behind a
dash. -/
def blockLead (n : Nat) (inMapping : Bool) : List Char :=
  if inMapping then lineStart (n + 2) else [' ']

theorem lineOf_block (hindent : p.atIndent = !inMapping)
    (hcolumn : inMapping = false → p.column = n + 1) : LineOf (n + 2) p (blockLead n inMapping) := by
  cases inMapping with
  | true => exact lineOf_newLine hindent
  | false =>
    have hcolumn := hcolumn rfl
    obtain ⟨hchars, hcolumn', hgap, hindent'⟩ :=
      Page.indentTo_sameLine (n := n + 2) hindent (by omega)
    refine ⟨?_, hcolumn', hgap, hindent'⟩
    rw [hchars, hcolumn]
    simp [blockLead]

/-- A block inside a block ends where the line behind it starts. -/
theorem scans_block (h : ScansFrom t (n + 2) src ts) (hcalm : ∀ rest, Calm (src ++ rest))
    (inMapping : Bool) :
    Scans n inMapping (blockLead n inMapping ++ src) (t :: ts ++ [.blockEnd]) := by
  intro m more tokens indents i k column _ hitem hm hmore
  obtain ⟨i', k', hlead⟩ : ∃ i' k', Reaches
      (outside ⟨blockLead n inMapping ++ (src ++ (lineStart m ++ more)), i, k, column⟩ tokens n indents
        (!inMapping))
      (outside ⟨src ++ (lineStart m ++ more), i', k', n + 2⟩ tokens n indents true) := by
    cases inMapping with
    | true => exact ⟨_, _, reaches_line (hcalm _) i k column⟩
    | false =>
      rw [hitem rfl]
      exact ⟨_, _, reaches_blank (hcalm _) i k (n + 1)⟩
  obtain ⟨j, l, hblock⟩ := h m more tokens n indents i' k' (by omega) (by omega) hmore
  have hopened : opened t n (n + 2) = [t] := if_pos (by omega)
  have haround : around n indents (n + 2) = (n : Int) :: indents := if_pos (by omega)
  rw [hopened, haround] at hblock
  refine ⟨j, l, ?_⟩
  rw [List.append_assoc]
  refine hlead.trans (hblock.trans (Reaches.of_settle ?_ (Nat.le_refl _)))
  have hend := @settle_blockEnd ⟨more, j, l, m⟩ (tokens ++ [t] ++ ts) (n + 2 : Nat) indents true n hmore
    (Int.ofNat_lt.mpr (by dsimp only; omega))
  simpa using hend

/-- A list that stands at the column of the mapping around it. -/
theorem scans_indentless (h : ScansFrom t n src ts) (hcalm : ∀ rest, Calm (src ++ rest)) :
    Scans n true (lineStart n ++ src) ts := by
  intro m more tokens indents i k column _ _ hm hmore
  obtain ⟨j, l, hblock⟩ := h m more tokens n indents (i + 1 + n) (k + 1) (Int.le_refl n) hm hmore
  have hopened : opened t n n = [] := if_neg (Int.lt_irrefl n)
  have haround : around n indents n = indents := if_neg (Int.lt_irrefl n)
  rw [hopened, haround, List.append_nil] at hblock
  refine ⟨j, l, ?_⟩
  rw [List.append_assoc]
  exact (reaches_line (hcalm _) i k column).trans hblock

theorem isKept_blockLead : ∀ c ∈ blockLead n inMapping, isKept c = true := by
  unfold blockLead
  split
  · exact isKept_lineStart
  · exact List.all_eq_true.mp (by decide)

theorem isGap_blockLead (src : List Char) : isGap ((blockLead n inMapping ++ src).headD endChar) = true := by
  unfold blockLead
  split
  · exact (by decide : isGap '\n' = true)
  · exact (by decide : isGap ' ' = true)

theorem Lasting.writtenIn (h : Lasting n d) : ∀ (m : Nat) (inMapping : Bool), m ≤ n →
    WrittenIn m inMapping d := by
  induction h with
  | scalar h hn => exact fun m inMapping hm => writtenIn_scalar h (by omega) inMapping
  | @list n items h ih =>
    intro m inMapping hm
    by_cases hempty : items = []
    · subst hempty
      refine writtenIn_empty emptyList (by decide) (fun M spot s => ?_) ?_
      · rw [write, writeList]
        rfl
      · rw [tokensOf]
        rfl
    have hnonempty : items.isEmpty = false := by simpa using hempty
    intro M p printed hgap hindent hcolumn
    -- Under a key the list begins on a line of its own, in the indentation of the key.
    cases inMapping with
    | true =>
      obtain ⟨q, hwrite, ⟨src, hchars, hkept, hcalm, hscans⟩, hindent'⟩ := writeItems_from items hempty
        (fun d hd => ih d hd m false (by omega)) M p printed (lineStart m) (lineOf_newLine hindent)
      refine ⟨lineStart m ++ src, q, ?_, hchars, hindent', ?_, (by decide : isGap '\n' = true), ?_⟩
      · rw [write, writeList, hnonempty]
        simpa [hindent] using hwrite
      · exact fun c hc => (List.mem_append.mp hc).elim (isKept_lineStart c) (hkept c)
      · rw [tokensOf, hnonempty]
        exact scans_indentless hscans hcalm
    | false =>
      obtain ⟨q, hwrite, ⟨src, hchars, hkept, hcalm, hscans⟩, hindent'⟩ := writeItems_from items hempty
        (fun d hd => ih d hd (m + 2) false (by omega)) M p printed _ (lineOf_block hindent hcolumn)
      refine ⟨blockLead m false ++ src, q, ?_, hchars, hindent', ?_, isGap_blockLead src, ?_⟩
      · rw [write, writeList, hnonempty]
        exact hwrite
      · exact fun c hc => (List.mem_append.mp hc).elim (isKept_blockLead c) (hkept c)
      · rw [tokensOf, hnonempty]
        exact scans_block hscans hcalm false
  | @map n entries hkeys _ h ih =>
    intro m inMapping hm
    by_cases hempty : entries = []
    · subst hempty
      refine writtenIn_empty emptyMap (by decide) (fun M spot s => ?_) ?_
      · rw [write, writeMap]
        rfl
      · rw [tokensOf]
        rfl
    have hnonempty : entries.isEmpty = false := by simpa using hempty
    intro M p printed hgap hindent hcolumn
    obtain ⟨q, hwrite, ⟨src, hchars, hkept, hcalm, hscans⟩, hindent'⟩ := writeEntries_from entries hempty
      hkeys (fun e he => ih e he (m + 2) true (by omega)) M p printed _ (lineOf_block hindent hcolumn)
    refine ⟨blockLead m inMapping ++ src, q, ?_, hchars, hindent', ?_, isGap_blockLead src, ?_⟩
    · rw [write, writeMap, hnonempty]
      exact hwrite
    · exact fun c hc => (List.mem_append.mp hc).elim (isKept_blockLead c) (hkept c)
    · rw [tokensOf, hnonempty]
      exact scans_block hscans hcalm inMapping

/-! Documents. -/

theorem lineOf_blank : LineOf 0 Page.blank [] := ⟨rfl, rfl, rfl, rfl⟩

theorem fetch_end_outside (tokens : List Token) (i k : Nat) :
    (outside ⟨[], i, k, 0⟩ tokens 0 [-1] true).fetch =
      .ok (outside ⟨[], i, k, 0⟩ (tokens ++ [.blockEnd, .streamEnd]) (-1) [] false) := by
  have hsettled : (outside ⟨[], i, k, 0⟩ tokens 0 [-1] true).Settled :=
    settled_outside Calm.nil (Int.le_refl 0)
  rw [fetch_end hsettled rfl]
  simp [closeBlocks, unwind, outside, inFlow, dropKey, Except.map, emit, bind, Except.bind, pure,
    Except.pure]

/-- A document is written so that it is read as its tokens. -/
theorem tokens_render (h : Lasting 0 (.map entries)) (hne : entries ≠ []) :
    tokens (render (.map entries)) =
      .ok (.blockMappingStart :: entryTokens entries ++ [.blockEnd, .streamEnd]) ∧
    ∀ c ∈ (render (.map entries)).toList, isKept c = true := by
  cases h with
  | scalar h _ => cases h.written
  | map hkeys _ hvalues =>
  obtain ⟨q, hwrite, ⟨src, hchars, hkept, hcalm, hscans⟩, hindent⟩ := writeEntries_from entries hne hkeys
    (fun e he => (hvalues e he).writtenIn 0 true (by omega)) (mentions (.map entries) ⟨[], [], true⟩)
    Page.blank [] [] lineOf_blank
  have hline := Page.indentTo_newLine (p := q) (n := 0) (.inl hindent)
  have hnonempty : entries.isEmpty = false := by simpa using hne
  have hpage : write (mentions (.map entries) ⟨[], [], true⟩) ⟨none, false, false⟩ (.map entries)
      ⟨Page.blank, []⟩ = ⟨q, []⟩ := by
    rw [write, writeMap, hnonempty]
    exact hwrite
  have htext : (render (.map entries)).toList = src ++ lineStart 0 := by
    rw [render, hpage, Page.text_eq, String.toList_ofList, hline.chars, hchars]
    rfl
  have hall : ∀ c ∈ (render (.map entries)).toList, isKept c = true := by
    rw [htext]
    exact fun c hc => (List.mem_append.mp hc).elim (hkept c) (isKept_lineStart c)
  refine ⟨?_, hall⟩
  have hallowed : (render (.map entries)).toList.all isAllowed = true :=
    List.all_eq_true.mpr fun c hc => (Bool.and_eq_true_iff.mp (hall c hc)).1
  obtain ⟨j, l, hreaches⟩ := hscans 0 [] [] (-1) [] 0 0 (by decide) (Nat.le_refl 0) Calm.nil
  rw [tokens, hallowed, htext]
  refine (Reaches.run_eq hreaches (fetch_end_outside _ j l) ?_ ?_).trans ?_
  · simp [outside]
  · simp
  · simp [outside, opened]

end JudgedLint.Yaml
