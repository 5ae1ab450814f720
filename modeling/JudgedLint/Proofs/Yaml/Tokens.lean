import JudgedLint.Proofs.Yaml.Fetching
import JudgedLint.Proofs.Yaml.Plain
import JudgedLint.Proofs.Yaml.Quoted

/-! What the lexer makes of the pieces of a document that a printer writes: scalars, empty
collections, keys with their colons, and the dashes of items. Each piece stands in front of a line of
which only the indentation is known. -/
namespace JudgedLint.Yaml.Lexer

variable {n i k m column count : Nat} {src out rest more word : List Char} {c : Char}
  {tokens : List Token} {indent : Int} {indents : List Int} {keyAllowed : Bool}

def savedKeys (cursor : Cursor) (tokens : List Token) (indent : Int) (keyAllowed : Bool) :
    List (Int × KeyPlace) :=
  if keyAllowed then
    [(0, ⟨tokens.length, indent == cursor.column, cursor.index, cursor.line, cursor.column⟩)]
  else []

theorem saveKey_outside (cursor : Cursor) (tokens : List Token) (indent : Int) (indents : List Int)
    (keyAllowed : Bool) : (outside cursor tokens indent indents keyAllowed).saveKey =
      .ok { outside cursor tokens indent indents keyAllowed with
        keys := savedKeys cursor tokens indent keyAllowed } := by
  cases keyAllowed with
  | false => rfl
  | true => simp [saveKey, savedKeys, outside, dropKey, inFlow, bind, Except.bind, pure, Except.pure]

/-- The place that is saved in front of a value is no place that only a key can stand at. -/
theorem savedKeys_line {cursor : Cursor} (hindent : indent < cursor.column) :
    ∀ p ∈ savedKeys cursor tokens indent keyAllowed,
      p.2.line = cursor.line ∧ p.2.required = false := by
  intro p hp
  unfold savedKeys at hp
  split at hp
  · rw [List.mem_singleton.mp hp]
    exact ⟨rfl, beq_eq_false_iff_ne.mpr (Int.ne_of_lt hindent)⟩
  · cases hp

theorem dropStaleKeys_saved {l : Lexer} {cursor : Cursor}
    (hkeys : l.keys = savedKeys cursor tokens indent keyAllowed) (hline : cursor.line = l.cursor.line)
    (hindex : l.cursor.index - cursor.index ≤ 1024) : l.dropStaleKeys = .ok l := by
  have hnear : ¬1024 < l.cursor.index - cursor.index := by omega
  obtain ⟨cursor', tokens', flow, indent', indents, keyAllowed', keys⟩ := l
  obtain rfl : keys = savedKeys cursor tokens indent keyAllowed := hkeys
  cases keyAllowed with
  | false => rfl
  | true => simp [dropStaleKeys, savedKeys, hline, hnear]

theorem reaches_plain (hcalm : isCalm c = true)
    (hstarts : startsPlain false c (src.headD '\n') = true) (hreads : PlainReads (n + 2) (c :: src) out)
    (hindent : n < column) (hm : m ≤ n) (hmore : Calm more) : ∃ j l,
      Reaches (outside ⟨c :: src ++ (lineStart m ++ more), i, k, column⟩ tokens n indents keyAllowed)
        (outside ⟨more, j, l, m⟩ (tokens ++ [.scalar (String.ofList out) .plain]) n indents true) := by
  obtain ⟨j, l, hline, hread⟩ := hreads (n + 1) m more (by omega) (by omega) hmore
    ((c :: src ++ (lineStart m ++ more)).length + 1) [] false i k column (Nat.lt_succ_self _) (by omega)
  have hcursor : Calm (Cursor.mk (c :: src ++ (lineStart m ++ more)) i k column).rest := hcalm
  have hsettled : (outside ⟨c :: src ++ (lineStart m ++ more), i, k, column⟩ tokens n indents
      keyAllowed).Settled := settled_outside hcursor (by simp; omega)
  have hafter : (Cursor.mk (c :: src ++ (lineStart m ++ more)) i k column).peekAt 1 = src.headD '\n' := by
    cases src <;> rfl
  have hcolumn : (column == 0) = false := beq_eq_false_iff_ne.mpr (by omega)
  have hscan : Scalar.plain false n ⟨c :: src ++ (lineStart m ++ more), i, k, column⟩ =
      (out, true, ⟨more, j, l, m⟩) := hread
  have hfetch : (outside ⟨c :: src ++ (lineStart m ++ more), i, k, column⟩ tokens n indents
      keyAllowed).fetch =
      .ok { outside ⟨more, j, l, m⟩ (tokens ++ [.scalar (String.ofList out) .plain]) n indents true with
        keys := savedKeys ⟨c :: src ++ (lineStart m ++ more), i, k, column⟩ tokens n keyAllowed } := by
    rw [fetch_plain hsettled rfl (hafter ▸ hstarts) (by simp [outside, hcolumn]), saveKey_outside]
    simp only [Except.map, outside, inFlow, bne_self_eq_false, hscan, emit, List.push_toArray]
  refine ⟨j, l, Reaches.trans (Reaches.of_fetch hfetch ?_ ?_)
    (Reaches.of_settle (settle_dropKeys hmore ?_) ?_)⟩
  · simp [outside]
  · simp [outside, lineStart]
    omega
  · intro p hp
    obtain ⟨hplace, hrequired⟩ := savedKeys_line (Int.ofNat_lt.mpr hindent) p hp
    exact ⟨hplace ▸ Nat.ne_of_lt hline, hrequired⟩
  · exact Nat.le_refl _

theorem reaches_quoted (double : Bool) (hreads : QuotedReads double src out) (hindent : n < column)
    (hmore : Calm more) : ∃ j l,
      Reaches (outside ⟨quoteOf double :: (src ++ [quoteOf double]) ++ (lineStart m ++ more), i, k, column⟩
          tokens n indents keyAllowed)
        (outside ⟨more, j, l, m⟩
          (tokens ++ [.scalar (String.ofList out) (if double then Style.double else Style.single)]) n
          indents true) := by
  have htail : (lineStart m ++ more).headD endChar ≠ quoteOf double := by
    have hquotes : '\n' ≠ '"' ∧ '\n' ≠ Char.ofNat 39 := by decide
    cases double with
    | true => exact hquotes.1
    | false => exact hquotes.2
  obtain ⟨j, l, b, hline, hread⟩ := quoted_reads hreads htail i k column
  have hsrc : quoteOf double :: (src ++ [quoteOf double]) ++ (lineStart m ++ more) =
      quoteOf double :: (src ++ quoteOf double :: (lineStart m ++ more)) := by simp
  have hcalm : isCalm (quoteOf double) = true := by cases double <;> decide
  have hsettled : (outside ⟨quoteOf double :: (src ++ quoteOf double :: (lineStart m ++ more)), i, k, column⟩
      tokens n indents keyAllowed).Settled := settled_outside hcalm (by simp; omega)
  have hfetch : (outside ⟨quoteOf double :: (src ++ quoteOf double :: (lineStart m ++ more)), i, k, column⟩
      tokens n indents keyAllowed).fetch =
      .ok { outside ⟨lineStart m ++ more, j, l, b⟩
          (tokens ++ [.scalar (String.ofList out) (if double then Style.double else Style.single)]) n
          indents false with
        keys := savedKeys ⟨quoteOf double :: (src ++ quoteOf double :: (lineStart m ++ more)), i, k, column⟩
          tokens n keyAllowed } := by
    rw [fetch_quoted hsettled double (by cases double <;> rfl), saveKey_outside]
    change (Scalar.quoted double _ >>= _) = _
    rw [cursor_outside, hread]
    simp [bind, Except.bind, found, outside, pure, Except.pure]
  rw [hsrc]
  refine ⟨j + 1 + m, l + 1, Reaches.trans (Reaches.of_fetch hfetch ?_ ?_) (Reaches.of_settle
    (settle_line hmore ?_) ?_)⟩
  · simp [outside]
  · simp [outside, lineStart]
    omega
  · intro p hp
    obtain ⟨hplace, hrequired⟩ := savedKeys_line (Int.ofNat_lt.mpr hindent) p hp
    exact ⟨hplace ▸ hline, hrequired⟩
  · simp [outside, lineStart]
    omega

theorem isInert_of_isCalm (h : isCalm c = true) : isInert c = true := by
  simp only [isCalm, Bool.and_eq_true] at h
  exact h.2

/-- The two signs of an empty collection, and their tokens. -/
structure EmptyPair (opening closing : Char) (start stop : Token) : Prop where
  opens : ∀ l : Lexer, l.Settled → l.cursor.peek = opening → l.fetch = l.openFlow start
  closes : ∀ l : Lexer, l.Settled → l.cursor.peek = closing → l.fetch = l.closeFlow stop
  calm : isCalm opening = true ∧ isCalm closing = true
  goesOn : start ≠ .streamEnd ∧ stop ≠ .streamEnd

theorem emptyMap : EmptyPair '\x7b' '\x7d' .flowMappingStart .flowMappingEnd :=
  ⟨fun _ h => fetch_open h true, fun _ h => fetch_close h true, by decide, nofun, nofun⟩

theorem emptyList : EmptyPair '[' ']' .flowSequenceStart .flowSequenceEnd :=
  ⟨fun _ h => fetch_open h false, fun _ h => fetch_close h false, by decide, nofun, nofun⟩

theorem reaches_empty {opening closing : Char} {start stop : Token}
    (hpair : EmptyPair opening closing start stop) (hindent : n < column) (hmore : Calm more) : ∃ j l,
    Reaches (outside ⟨opening :: closing :: (lineStart m ++ more), i, k, column⟩ tokens n indents
        keyAllowed)
      (outside ⟨more, j, l, m⟩ (tokens ++ [start, stop]) n indents true) := by
  have hsettled : (outside ⟨opening :: closing :: (lineStart m ++ more), i, k, column⟩ tokens n indents
      keyAllowed).Settled := settled_outside hpair.calm.1 (by simp; omega)
  have hline := @savedKeys_line tokens n keyAllowed
    ⟨opening :: closing :: (lineStart m ++ more), i, k, column⟩ (Int.ofNat_lt.mpr hindent)
  generalize hkeys : savedKeys ⟨opening :: closing :: (lineStart m ++ more), i, k, column⟩ tokens n
    keyAllowed = keys at hline
  have hfetch : (outside ⟨opening :: closing :: (lineStart m ++ more), i, k, column⟩ tokens n indents
      keyAllowed).fetch =
      .ok { outside ⟨closing :: (lineStart m ++ more), i + 1, k, column + 1⟩ (tokens ++ [start]) n indents
          true with
        flow := 1
        keys := keys } := by
    rw [hpair.opens _ hsettled rfl, openFlow, saveKey_outside, hkeys]
    simp [bind, Except.bind, pure, Except.pure, take, outside, Cursor.forward,
      Cursor.next_inert (isInert_of_isCalm hpair.calm.1)]
  -- The closing sign is fetched inside the collection, where the saved key of the opening one waits.
  have hsettled' : { outside ⟨closing :: (lineStart m ++ more), i + 1, k, column + 1⟩ (tokens ++ [start]) n
      indents true with
        flow := 1
        keys := keys }.Settled := by
    refine ⟨?_, rfl⟩
    rw [skip_calm]
    · exact dropStaleKeys_saved hkeys.symm rfl (by simp)
    · exact hpair.calm.2
  have hfetch' : { outside ⟨closing :: (lineStart m ++ more), i + 1, k, column + 1⟩ (tokens ++ [start]) n
      indents true with
        flow := 1
        keys := keys }.fetch =
      .ok { outside ⟨lineStart m ++ more, i + 2, k, column + 2⟩ (tokens ++ [start, stop]) n indents
        false with keys := keys } := by
    rw [hpair.closes _ hsettled' rfl, closeFlow]
    have hnone : keys.lookup 1 = none := by
      rw [← hkeys]
      unfold savedKeys
      split <;> rfl
    simp [bind, Except.bind, pure, Except.pure, take, outside, Cursor.forward, dropKey, hnone,
      Cursor.next_inert (isInert_of_isCalm hpair.calm.2)]
  refine ⟨i + 2 + 1 + m, k + 1, Reaches.trans (Reaches.of_fetch hfetch ?_ ?_) (Reaches.trans
    (Reaches.of_fetch hfetch' ?_ ?_) (Reaches.of_settle (settle_line hmore ?_) ?_))⟩
  · simpa [outside] using hpair.goesOn.1
  · simp [outside]
  · simpa [outside] using hpair.goesOn.2
  · simp [outside]
  · exact fun p hp => ⟨Nat.le_of_eq (hline p hp).1, (hline p hp).2⟩
  · simp [outside, lineStart]
    omega

def keyChars : List Char :=
  "abcdefghijklmnopqrstuvwxyzABCDEFGHIJKLMNOPQRSTUVWXYZ0123456789_".toList

/-- A key that is written as it is, in front of a colon. -/
structure IsKey (word : List Char) : Prop where
  nonempty : word ≠ []
  plain : ∀ c ∈ word, c ∈ keyChars
  short : word.length < 123

theorem of_mem_keyChars : ∀ c ∈ keyChars,
    isGap c = false ∧ isCalm c = true ∧ c ≠ ':' ∧ c ≠ '-' ∧ c ≠ '.' :=
  List.all_iff_forall_prop.mp (by decide)

theorem startsPlain_keyChar (after : Char) : ∀ c ∈ keyChars, startsPlain false c after = true := by
  refine List.all_iff_forall_prop.mp ?_
  unfold startsPlain
  generalize isGap after = gap
  revert gap
  decide

theorem plain_key (hword : IsKey word) (hgap : isGap (rest.headD endChar) = true) (i k column : Nat) :
    Scalar.plain false indent ⟨word ++ ':' :: rest, i, k, column⟩ =
      (word, false, ⟨':' :: rest, i + word.length, k, column + word.length⟩) := by
  have hlength : ∀ cs : List Char, (∀ c ∈ cs, c ∈ keyChars) →
      Scalar.plainLength false (cs ++ ':' :: rest) = cs.length := by
    intro cs
    induction cs with
    | nil =>
      intro _
      simp only [List.nil_append, Scalar.plainLength, Scalar.plainStops, hgap]
      rfl
    | cons c cs ih =>
      intro hcs
      obtain ⟨hc, _, hcolon, _⟩ := of_mem_keyChars c (hcs c List.mem_cons_self)
      simp [Scalar.plainLength, Scalar.plainStops, hc, hcolon,
        ih fun d hd => hcs d (List.mem_cons_of_mem _ hd)]
  have hinert : ∀ c ∈ word, isInert c = true := fun c hc =>
    isInert_of_isCalm (of_mem_keyChars c (hword.plain c hc)).2.1
  have hpeek : (Cursor.mk (word ++ ':' :: rest) i k column).peek ≠ '#' := by
    obtain ⟨c, word, rfl⟩ := List.exists_cons_of_ne_nil hword.nonempty
    have hcalm : Calm (c :: word) := (of_mem_keyChars c (hword.plain c List.mem_cons_self)).2.1
    exact hcalm.head.2.1
  have hgapless : Scalar.plainGap ⟨':' :: rest, i + word.length, k, column + word.length⟩ =
      ([], false, ⟨':' :: rest, i + word.length, k, column + word.length⟩) :=
    plainGap_blanks (n := 0) (show isCalm ':' = true by decide)
  have hpos : word.length ≠ 0 := mt List.length_eq_zero_iff.mp hword.nonempty
  rw [Scalar.plain, Scalar.plainPieces]
  simp only [beq_iff_eq, hpeek, if_false, hlength word hword.plain, hpos,
    Cursor.forward_inert hinert, hgapless, List.take_left, List.nil_append, List.isEmpty_nil, Bool.true_or,
    if_true]

theorem insertIdx_length {α : Type} (as bs : List α) (a : α) :
    (as ++ bs).insertIdx as.length a = as ++ a :: bs := by
  induction as with
  | nil => rfl
  | cons b as ih => simpa using ih

/-- The block that starts where text stands further in than the block around it. -/
def opened (t : Token) (indent : Int) (column : Nat) : List Token :=
  if indent < column then [t] else []

def around (indent : Int) (indents : List Int) (column : Nat) : List Int :=
  if indent < column then indent :: indents else indents

def keyTokens (word : List Char) : List Token :=
  [.key, .scalar (String.ofList word) .plain, .value]

theorem IsKey.head (h : IsKey word) : ∃ c ∈ keyChars, ∀ tail : List Char,
    (word ++ tail).head? = some c := by
  obtain ⟨c, word, rfl⟩ := List.exists_cons_of_ne_nil h.nonempty
  exact ⟨c, h.plain c List.mem_cons_self, fun _ => rfl⟩

theorem fetch_key (hword : IsKey word) (hgap : isGap (rest.headD endChar) = true)
    (hindent : indent ≤ n) : (outside ⟨word ++ ':' :: rest, i, k, n⟩ tokens indent indents true).fetch =
      .ok { outside ⟨':' :: rest, i + word.length, k, n + word.length⟩
          (tokens ++ [Token.scalar (String.ofList word) .plain]) indent indents false with
        keys := savedKeys ⟨word ++ ':' :: rest, i, k, n⟩ tokens indent true } := by
  obtain ⟨c, hc, hhead⟩ := hword.head
  obtain ⟨cs, hcs⟩ := List.head?_eq_some_iff.mp (hhead (':' :: rest))
  obtain ⟨_, hcalm, _, hdash, hdot⟩ := of_mem_keyChars c hc
  have hpeek : (Cursor.mk (word ++ ':' :: rest) i k n).peek = c := by
    rw [hcs]
    rfl
  have hsettled : (outside ⟨word ++ ':' :: rest, i, k, n⟩ tokens indent indents true).Settled := by
    refine settled_outside ?_ hindent
    rw [hcs]
    exact hcalm
  rw [fetch_plain hsettled rfl ?_ ?_, saveKey_outside]
  · simp only [Except.map, outside, inFlow, bne_self_eq_false, plain_key hword hgap, emit,
      List.push_toArray]
  · rw [cursor_outside, hpeek]
    exact startsPlain_keyChar _ c hc
  · simp [outside, Cursor.atSeparator, hcs, hdash, hdot]

theorem fetch_colon {keys : List (Int × KeyPlace)} {word : List Char} {cursor : Cursor}
    (hkeys : keys = savedKeys cursor tokens indent true) (hcursor : cursor.line = k)
    (hcolumn : cursor.column = n) (hnear : i - cursor.index ≤ 1024) (hle : n ≤ column)
    (hgap : isGap (rest.headD endChar) = true) (hindent : indent ≤ n) :
    { outside ⟨':' :: rest, i, k, column⟩ (tokens ++ [Token.scalar (String.ofList word) .plain])
        indent indents false with keys := keys }.fetch =
      .ok (outside ⟨rest, i + 1, k, column + 1⟩
        (tokens ++ opened .blockMappingStart indent n ++ keyTokens word) n (around indent indents n)
        false) := by
  have hsettled : { outside ⟨':' :: rest, i, k, column⟩
      (tokens ++ [Token.scalar (String.ofList word) .plain]) indent indents false with
        keys := keys }.Settled := by
    refine ⟨?_, unwind_of_le ?_⟩
    · rw [skip_calm]
      · exact dropStaleKeys_saved hkeys hcursor hnear
      · exact (by decide : isCalm ':' = true)
    · simp [outside]
      omega
  rw [fetch_value_of_gap hsettled rfl hgap, fetchValue, hkeys]
  have hnext : (Cursor.mk (':' :: rest) i k column).next = ⟨rest, i + 1, k, column + 1⟩ :=
    Cursor.next_inert (by decide)
  by_cases hdeep : indent < n
  · simp [savedKeys, outside, deepen, inFlow, take, Cursor.forward, hnext, opened, around, hdeep, hcolumn,
      keyTokens, insertIdx_length, pure, Except.pure]
  · obtain rfl : indent = n := by omega
    simp [savedKeys, outside, deepen, inFlow, take, Cursor.forward, hnext, opened, around, hcolumn,
      keyTokens, insertIdx_length, pure, Except.pure]

theorem reaches_key (hword : IsKey word) (hgap : isGap (rest.headD endChar) = true)
    (hindent : indent ≤ n) :
    Reaches (outside ⟨word ++ ':' :: rest, i, k, n⟩ tokens indent indents true)
      (outside ⟨rest, i + word.length + 1, k, n + word.length + 1⟩
        (tokens ++ opened .blockMappingStart indent n ++ keyTokens word) n (around indent indents n)
        false) := by
  have hshort := hword.short
  refine Reaches.trans (Reaches.of_fetch (fetch_key hword hgap hindent) ?_ ?_)
    (Reaches.of_fetch (fetch_colon rfl rfl rfl ?_ ?_ hgap hindent) ?_ ?_)
  · simp [outside]
  · have hpos := List.length_pos_iff.mpr hword.nonempty
    simp [outside]
    omega
  · dsimp only
    omega
  · omega
  · simp [outside, keyTokens]
  · simp [outside]

theorem reaches_dash (hgap : isGap (rest.headD endChar) = true) (hindent : indent ≤ n) :
    Reaches (outside ⟨'-' :: rest, i, k, n⟩ tokens indent indents true)
      (outside ⟨rest, i + 1, k, n + 1⟩
        (tokens ++ opened .blockSequenceStart indent n ++ [.blockEntry]) n (around indent indents n)
        true) := by
  have hcalm : isCalm '-' = true := by decide
  have hsettled : (outside ⟨'-' :: rest, i, k, n⟩ tokens indent indents true).Settled :=
    settled_outside hcalm hindent
  have hnext : (Cursor.mk ('-' :: rest) i k n).next = ⟨rest, i + 1, k, n + 1⟩ :=
    Cursor.next_inert (by decide)
  have hfetch : (outside ⟨'-' :: rest, i, k, n⟩ tokens indent indents true).fetch =
      .ok (outside ⟨rest, i + 1, k, n + 1⟩
        (tokens ++ opened .blockSequenceStart indent n ++ [.blockEntry]) n (around indent indents n)
        true) := by
    rw [fetch_blockEntry hsettled rfl hgap ?_, fetchBlockEntry]
    · by_cases hdeep : indent < n
      · simp [openBlock, outside, deepen, inFlow, take, Cursor.forward, hnext, opened, around, hdeep,
          dropKey, emit, bind, Except.bind, pure, Except.pure]
      · obtain rfl : indent = n := by omega
        simp [openBlock, outside, deepen, inFlow, take, Cursor.forward, hnext, opened, around,
          dropKey, bind, Except.bind, pure, Except.pure]
    · cases rest with
      | nil => simp [Cursor.atSeparator]
      | cons c rest =>
        have hc : c ≠ '-' := ne_of_isGap hgap (by decide)
        simp [Cursor.atSeparator, hc]
  refine Reaches.of_fetch hfetch ?_ ?_
  · simp [outside]
  · simp [outside]

end JudgedLint.Yaml.Lexer
