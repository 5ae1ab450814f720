import JudgedLint.Proofs.Yaml.Lexing
import Mathlib.Data.Bool.AllAny

/-! One lemma for each kind of token: what is fetched where it stands. -/
namespace JudgedLint.Yaml.Lexer

variable {l : Lexer}

theorem ne_of_startsPlain {ch after x : Char} (h : startsPlain false ch after = true)
    (hx : startsPlain false x after = false) : (ch == x) = false := by
  rw [beq_eq_false_iff_ne]
  rintro rfl
  exact Bool.false_ne_true (hx.symm.trans h)

def markers : List Char :=
  [endChar, '%', '[', ']', '\x7b', '\x7d', ',', '*', '&', '!', '|', '>', '"', Char.ofNat 39]

theorem startsPlain_marker (after : Char) : ∀ x ∈ markers, startsPlain false x after = false := by
  refine List.all_iff_forall_prop.mp ?_
  unfold startsPlain
  generalize isGap after = gap
  revert gap
  decide

theorem startsPlain_sign {ch after : Char} (h : startsPlain false ch after = true) :
    ∀ x ∈ ['-', '?', ':'], (ch == x && isGap after) = false := by
  intro x hx
  by_contra hsign
  rw [Bool.not_eq_false, Bool.and_eq_true, beq_iff_eq] at hsign
  obtain ⟨rfl, hgap⟩ := hsign
  unfold startsPlain at h
  rw [hgap] at h
  simp only [List.mem_cons, List.not_mem_nil, or_false] at hx
  rcases hx with rfl | rfl | rfl <;> exact Bool.false_ne_true h

theorem fetch_plain (h : l.Settled) (hflow : l.flow = 0)
    (hstarts : startsPlain false l.cursor.peek (l.cursor.peekAt 1) = true)
    (hseparator : (l.cursor.column == 0 && l.cursor.atSeparator) = false) :
    l.fetch = l.saveKey.map fun l' =>
      let scan := Scalar.plain l'.inFlow l'.indent l.cursor
      { l' with cursor := scan.2.2, keyAllowed := scan.2.1 }.emit
        (.scalar (String.ofList scan.1) .plain) := by
  have hmarker (x : Char) (hx : x ∈ markers) : (l.cursor.peek == x) = false :=
    ne_of_startsPlain hstarts (startsPlain_marker _ x hx)
  have hquote : (l.cursor.peek.toNat == 39) = false := by
    rw [beq_eq_false_iff_ne]
    intro hcode
    have hne := hmarker (Char.ofNat 39) (by decide)
    rw [← hcode, Char.ofNat_toNat, beq_self_eq_true] at hne
    cases hne
  have hsign := startsPlain_sign hstarts
  have hinflow : l.inFlow = false := by simp [inFlow, hflow]
  unfold fetch
  change (l.skip.dropStaleKeys >>= _) = _
  rw [h.fresh]
  simp only [bind, Except.bind, h.within, isEnd, hmarker endChar (by decide),
    hmarker '%' (by decide), hmarker '[' (by decide), hmarker ']' (by decide),
    hmarker '\x7b' (by decide), hmarker '\x7d' (by decide), hmarker ',' (by decide),
    hmarker '*' (by decide), hmarker '&' (by decide), hmarker '!' (by decide),
    hmarker '|' (by decide), hmarker '>' (by decide), hmarker '"' (by decide), hquote, hinflow,
    hseparator, hsign '-' (by decide), hsign '?' (by decide), hsign ':' (by decide), hstarts,
    Bool.and_false, Bool.false_and, Bool.false_or,
    Bool.false_eq_true, if_false, if_true]
  cases l.saveKey with
  | error f => rfl
  | ok l' => rfl

theorem fetch_quoted (h : l.Settled) (double : Bool)
    (hpeek : l.cursor.peek = if double then '"' else Char.ofNat 39) :
    l.fetch = do
      let l' ← l.saveKey
      let (text, c) ← Scalar.quoted double l.cursor
      return l'.found
        (.scalar (String.ofList text) (if double then Style.double else Style.single), c) := by
  unfold fetch
  change (l.skip.dropStaleKeys >>= _) = _
  rw [h.fresh]
  cases double <;> simp [bind, Except.bind, h.within, hpeek, isEnd, endChar]

theorem fetch_value_of_gap (h : l.Settled) (hpeek : l.cursor.peek = ':')
    (hgap : isGap (l.cursor.peekAt 1) = true) : l.fetch = l.fetchValue := by
  unfold fetch
  change (l.skip.dropStaleKeys >>= _) = _
  rw [h.fresh]
  simp [bind, Except.bind, h.within, hpeek, isEnd, endChar, hgap]

theorem fetch_blockEntry (h : l.Settled) (hpeek : l.cursor.peek = '-')
    (hgap : isGap (l.cursor.peekAt 1) = true)
    (hseparator : (l.cursor.column == 0 && l.cursor.atSeparator) = false) :
    l.fetch = l.fetchBlockEntry := by
  unfold fetch
  change (l.skip.dropStaleKeys >>= _) = _
  rw [h.fresh]
  simp [bind, Except.bind, h.within, hpeek, isEnd, endChar, hgap, hseparator]

theorem fetch_open (h : l.Settled) (isMap : Bool)
    (hpeek : l.cursor.peek = if isMap then '\x7b' else '[') :
    l.fetch = l.openFlow (if isMap then .flowMappingStart else .flowSequenceStart) := by
  unfold fetch
  change (l.skip.dropStaleKeys >>= _) = _
  rw [h.fresh]
  cases isMap <;> simp [bind, Except.bind, h.within, hpeek, isEnd, endChar]

theorem fetch_close (h : l.Settled) (isMap : Bool)
    (hpeek : l.cursor.peek = if isMap then '\x7d' else ']') :
    l.fetch = l.closeFlow (if isMap then .flowMappingEnd else .flowSequenceEnd) := by
  unfold fetch
  change (l.skip.dropStaleKeys >>= _) = _
  rw [h.fresh]
  cases isMap <;> simp [bind, Except.bind, h.within, hpeek, isEnd, endChar]

theorem fetch_end (h : l.Settled) (hpeek : l.cursor.peek = endChar) :
    l.fetch = l.closeBlocks.map fun l' => { l' with keys := [] }.emit .streamEnd := by
  unfold fetch
  change (l.skip.dropStaleKeys >>= _) = _
  rw [h.fresh]
  simp only [bind, Except.bind, h.within, hpeek, isEnd, beq_self_eq_true, if_true]
  cases l.closeBlocks with
  | error f => rfl
  | ok l' => rfl

end JudgedLint.Yaml.Lexer
