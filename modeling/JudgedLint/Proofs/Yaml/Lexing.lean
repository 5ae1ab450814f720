import JudgedLint.Yaml.Token
import JudgedLint.Proofs.Except
import JudgedLint.Proofs.Yaml.Cursor

/-! How a lexer goes through a text. What it does next depends only on where its next token is, so
states that differ in blanks, in blocks that are about to end, and in places for keys that are out of
reach count as one. -/
namespace JudgedLint.Yaml.Lexer

def skip (l : Lexer) : Lexer := l.skipMark.skipToToken (l.cursor.rest.length + 1)

/-- A lexer outside of flow collections with no place for a key behind it. -/
def outside (cursor : Cursor) (tokens : List Token) (indent : Int) (indents : List Int)
    (keyAllowed : Bool) : Lexer :=
  ⟨cursor, tokens.toArray, 0, indent, indents, keyAllowed, []⟩

variable {l l' l'' : Lexer} {rest : List Char} {i k n column : Nat}

theorem skipMark_of_peek (h : l.cursor.peek ≠ '\uFEFF') : l.skipMark = l := by
  simp [skipMark, h]

theorem skipToToken_blanks (hcursor : l.cursor = ⟨List.replicate n ' ' ++ rest, i, k, column⟩)
    (h : Calm rest) (fuel : Nat) :
    l.skipToToken (fuel + 1) = { l with cursor := ⟨rest, i + n, k, column + n⟩ } := by
  obtain ⟨hblank, hcomment, hbreak, _⟩ := h.head
  rw [skipToToken, hcursor, Cursor.skipBlanks hblank]
  simp only [Cursor.peek_mk, beq_iff_eq, hcomment, if_false, hbreak, Bool.false_eq_true]

theorem skipToToken_newline (hflow : l.flow = 0) (hcursor : l.cursor = ⟨'\n' :: rest, i, k, column⟩)
    (fuel : Nat) : l.skipToToken (fuel + 1) =
      { l with cursor := ⟨rest, i + 1, k + 1, 0⟩, keyAllowed := true }.skipToToken fuel := by
  have hblanks : (Cursor.mk ('\n' :: rest) i k column).skipWhile (· == ' ') =
      ⟨'\n' :: rest, i, k, column⟩ := Cursor.skipNoBlanks (show '\n' ≠ ' ' by decide)
  have hbreak : isBreak '\n' = true := rfl
  rw [skipToToken, hcursor, hblanks]
  simp [inFlow, hflow, hbreak, Cursor.lineBreak_newline]

theorem skip_calm (h : Calm l.cursor.rest) : l.skip = l := by
  rw [skip, skipMark_of_peek h.head.2.2.2]
  exact skipToToken_blanks (n := 0) rfl h _

theorem skip_blanks (hcursor : l.cursor = ⟨List.replicate n ' ' ++ rest, i, k, column⟩)
    (h : Calm rest) : l.skip = { l with cursor := ⟨rest, i + n, k, column + n⟩ } := by
  rw [skip, skipMark_of_peek]
  · exact skipToToken_blanks hcursor h _
  · rw [hcursor, Cursor.peek_mk]
    cases n with
    | zero => exact h.head.2.2.2
    | succ n => simp [List.replicate_succ]

theorem skip_line (hflow : l.flow = 0) (hcursor : l.cursor = ⟨lineStart n ++ rest, i, k, column⟩)
    (h : Calm rest) :
    l.skip = { l with cursor := ⟨rest, i + 1 + n, k + 1, n⟩, keyAllowed := true } := by
  have hfuel : l.cursor.rest.length = List.length (List.replicate n ' ' ++ rest) + 1 := by
    simp [hcursor, lineStart]
  rw [skip, skipMark_of_peek (by simp [hcursor, lineStart]), hfuel,
    skipToToken_newline hflow hcursor, skipToToken_blanks rfl h, Nat.zero_add]

/-- The lexer at its next token, without what this token ends: places for keys that are out of reach,
and blocks that stand further in. -/
def settle (l : Lexer) : Except Fault Lexer :=
  l.skip.dropStaleKeys.map fun l => l.unwind l.cursor.column

theorem fetch_congr (h : l.settle = l'.settle) : l.fetch = l'.fetch := by
  unfold settle at h
  unfold fetch
  change (l.skip.dropStaleKeys >>= _) = (l'.skip.dropStaleKeys >>= _)
  cases hl : l.skip.dropStaleKeys with
  | error f =>
    cases hl' : l'.skip.dropStaleKeys with
    | error f' =>
      rw [hl, hl'] at h
      cases h
      rfl
    | ok m' =>
      rw [hl, hl'] at h
      cases h
  | ok m =>
    cases hl' : l'.skip.dropStaleKeys with
    | error f' =>
      rw [hl, hl'] at h
      cases h
    | ok m' =>
      rw [hl, hl'] at h
      have hsame : m.unwind m.cursor.column = m'.unwind m'.cursor.column := by
        simpa [Except.map] using h
      simp only [bind, Except.bind, hsame]

/-- A lexer at a token that ends nothing. -/
structure Settled (l : Lexer) : Prop where
  fresh : l.skip.dropStaleKeys = .ok l
  within : l.unwind l.cursor.column = l

theorem Settled.settle (h : l.Settled) : l.settle = .ok l := by
  rw [Lexer.settle, h.fresh]
  exact congrArg Except.ok h.within

theorem dropStaleKeys_of_none (h : l.keys = []) : l.dropStaleKeys = .ok l := by
  obtain ⟨cursor, tokens, flow, indent, indents, keyAllowed, keys⟩ := l
  cases h
  rfl

theorem unwind_of_le {at_ : Int} (h : l.indent ≤ at_) : l.unwind at_ = l := by
  have hnot : ¬at_ < l.indent := by omega
  unfold unwind
  split
  · rfl
  · simp [hnot]

variable {cursor : Cursor} {tokens : List Token} {indent : Int} {indents : List Int}
  {keyAllowed : Bool}

@[simp] theorem cursor_outside (cursor : Cursor) (tokens : List Token) (indent : Int)
    (indents : List Int) (keyAllowed : Bool) :
    (outside cursor tokens indent indents keyAllowed).cursor = cursor := rfl

theorem settled_outside (h : Calm cursor.rest) (hindent : indent ≤ cursor.column) :
    (outside cursor tokens indent indents keyAllowed).Settled := by
  refine ⟨?_, unwind_of_le hindent⟩
  rw [skip_calm h]
  exact dropStaleKeys_of_none rfl

theorem settle_of_calm (h : Calm l.cursor.rest) :
    l.settle = l.dropStaleKeys.map fun l => l.unwind l.cursor.column := by
  rw [settle, skip_calm h]

theorem unwind_cons {column outer : Int} (hflow : l.inFlow = false)
    (hindents : l.indents = outer :: indents) (h : column < l.indent) : l.unwind column =
      { l with tokens := l.tokens.push .blockEnd, indent := outer, indents := indents }.unwind
        column := by
  have hended : (l.indent :: l.indents).takeWhile (column < ·) =
      l.indent :: (outer :: indents).takeWhile (column < ·) := by
    rw [List.takeWhile_cons, if_pos (by simpa using h), hindents]
  have hflow' : { l with
    tokens := l.tokens.push .blockEnd, indent := outer, indents := indents }.inFlow = false := hflow
  unfold unwind
  rw [hflow, hflow', hended]
  simp [hindents]

theorem settle_blockEnd {outer : Int} (h : Calm cursor.rest) (hindent : cursor.column < indent) :
    (outside cursor tokens indent (outer :: indents) keyAllowed).settle =
      (outside cursor (tokens ++ [.blockEnd]) outer indents keyAllowed).settle := by
  rw [settle_of_calm h, dropStaleKeys_of_none rfl]
  refine Eq.trans ?_ (settle_of_calm h).symm
  rw [dropStaleKeys_of_none rfl]
  refine congrArg Except.ok ((unwind_cons rfl rfl hindent).trans ?_)
  simp [outside]

theorem settle_dropKeys {keys : List (Int × KeyPlace)} (h : Calm cursor.rest)
    (hkeys : ∀ p ∈ keys, p.2.line ≠ cursor.line ∧ p.2.required = false) :
    { outside cursor tokens indent indents keyAllowed with keys := keys }.settle =
      (outside cursor tokens indent indents keyAllowed).settle := by
  have hnone : (keys.any fun k =>
      (k.2.line != cursor.line || decide (1024 < cursor.index - k.2.index)) && k.2.required) = false := by
    rw [List.any_eq_false]
    intro p hp
    simp [(hkeys p hp).2]
  have hall : (keys.filter fun k =>
      !(k.2.line != cursor.line || decide (1024 < cursor.index - k.2.index))) = [] := by
    rw [List.filter_eq_nil_iff]
    intro p hp
    simp [(hkeys p hp).1]
  have hdrop : { outside cursor tokens indent indents keyAllowed with keys := keys }.dropStaleKeys =
      .ok (outside cursor tokens indent indents keyAllowed) := by
    unfold dropStaleKeys outside
    simp only [hnone, hall]
    rfl
  refine (settle_of_calm h).trans (Eq.trans ?_ (settle_of_calm h).symm)
  rw [hdrop, dropStaleKeys_of_none rfl]

/-- What follows a line end, in blocks that may be about to end, does not depend on the line before. -/
theorem settle_line {keys : List (Int × KeyPlace)} (h : Calm rest)
    (hkeys : ∀ p ∈ keys, p.2.line ≤ k ∧ p.2.required = false) :
    { outside ⟨lineStart n ++ rest, i, k, column⟩ tokens indent indents keyAllowed with
        keys := keys }.settle =
      (outside ⟨rest, i + 1 + n, k + 1, n⟩ tokens indent indents true).settle := by
  have hkeys' : ∀ p ∈ keys, p.2.line ≠ k + 1 ∧ p.2.required = false := fun p hp =>
    ⟨by have := (hkeys p hp).1; omega, (hkeys p hp).2⟩
  have hcalm : Calm (Cursor.mk rest (i + 1 + n) (k + 1) n).rest := h
  refine Eq.trans ?_ (settle_dropKeys hcalm hkeys')
  rw [settle, skip_line rfl rfl h]
  exact (settle_of_calm h).symm

theorem settle_newLine (h : Calm rest) (n i k column : Nat) :
    (outside ⟨lineStart n ++ rest, i, k, column⟩ tokens indent indents keyAllowed).settle =
      (outside ⟨rest, i + 1 + n, k + 1, n⟩ tokens indent indents true).settle := by
  have hkeys : ∀ p ∈ ([] : List (Int × KeyPlace)), p.2.line ≤ k ∧ p.2.required = false := by simp
  exact settle_line h hkeys

theorem settle_blanks (h : Calm rest) (n i k column : Nat) :
    (outside ⟨List.replicate n ' ' ++ rest, i, k, column⟩ tokens indent indents keyAllowed).settle =
      (outside ⟨rest, i + n, k, column + n⟩ tokens indent indents keyAllowed).settle := by
  rw [settle, skip_blanks rfl h]
  exact (settle_of_calm h).symm

/-! One state leads to another if a run from the first goes on from the second. Each token takes at
least one character, which is what bounds the steps of a run. -/

def Reaches (l l' : Lexer) : Prop :=
  ∃ steps, steps + l'.cursor.rest.length ≤ l.cursor.rest.length ∧
    ∀ fuel, run (fuel + steps) l = run fuel l'

theorem run_congr (h : l.settle = l'.settle) (fuel : Nat) : run fuel l = run fuel l' := by
  cases fuel with
  | zero => rfl
  | succ fuel => rw [run, run, fetch_congr h]

namespace Reaches

theorem trans (h : Reaches l l') (h' : Reaches l' l'') : Reaches l l'' := by
  obtain ⟨steps, hlength, hrun⟩ := h
  obtain ⟨steps', hlength', hrun'⟩ := h'
  refine ⟨steps' + steps, by omega, fun fuel => ?_⟩
  rw [← Nat.add_assoc, hrun, hrun']

theorem of_settle (h : l.settle = l'.settle)
    (hlength : l'.cursor.rest.length ≤ l.cursor.rest.length) : Reaches l l' :=
  ⟨0, by omega, run_congr h⟩

theorem of_fetch (h : l.fetch = .ok l') (hmore : l'.tokens.back? ≠ some .streamEnd)
    (hlength : l'.cursor.rest.length < l.cursor.rest.length) : Reaches l l' := by
  refine ⟨1, by omega, fun fuel => ?_⟩
  have hback : (l'.tokens.back? == some .streamEnd) = false := by simpa using hmore
  rw [run, h]
  simp only [bind, Except.bind, hback, Bool.false_eq_true, if_false]

/-- A run ends with the tokens of the state behind the last token. -/
theorem run_eq (h : Reaches l l') (hfetch : l'.fetch = .ok l'')
    (hend : l''.tokens.back? = some .streamEnd) {fuel : Nat} (hfuel : l.cursor.rest.length < fuel) :
    run fuel l = .ok l''.tokens.toList := by
  obtain ⟨steps, hlength, hrun⟩ := h
  obtain ⟨left, rfl⟩ : ∃ left, fuel = (left + 1) + steps := ⟨fuel - steps - 1, by omega⟩
  rw [hrun, run, hfetch]
  simp only [bind, Except.bind, hend, beq_self_eq_true, if_true]
  rfl

end Reaches

end JudgedLint.Yaml.Lexer
