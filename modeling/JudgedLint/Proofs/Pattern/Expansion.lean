import JudgedLint.Proofs.Pattern.Groups
import Mathlib.Computability.Language

/-! Alternatives in a glob against the globs that spell them out. The translation goes through a glob
once and tells `**` by its neighbours, which a brace changes and a spelt-out alternative does not. As
long as no whole segment `**` touches the edge of an alternative, both ways have the same words. -/
namespace JudgedLint.Pattern

open Regex (Matches)

variable {c : Char} {u v cs : List Char} {ps qs : List Piece} {r s : Regex} {depth fuel : Nat}

/-! ## Words -/

def Regex.language (r : Regex) : Language Char := {w | Matches r w}

theorem mem_language {w : List Char} : w ∈ r.language ↔ Matches r w := Iff.rfl

theorem language_empty : Regex.empty.language = 1 := by
  ext w
  rw [mem_language, Language.mem_one]
  constructor
  · rintro ⟨⟩
    rfl
  · rintro rfl
    exact .empty

theorem language_seq (a b : Regex) : (Regex.seq a b).language = a.language * b.language := by
  ext w
  rw [mem_language, Language.mem_mul]
  constructor
  · rintro ⟨⟩
    exact ⟨_, ‹_›, _, ‹_›, rfl⟩
  · rintro ⟨u, hu, v, hv, rfl⟩
    exact .seq hu hv

theorem language_alt (a b : Regex) : (Regex.alt a b).language = a.language + b.language := by
  ext w
  rw [mem_language, Language.mem_add]
  constructor
  · intro h
    cases h with
    | altLeft h => exact .inl h
    | altRight h => exact .inr h
  · rintro (h | h)
    · exact .altLeft h
    · exact .altRight h

theorem mem_language_choice {rs : List Regex} (hne : rs ≠ []) {w : List Char} :
    w ∈ (Regex.choice rs).language ↔ ∃ r ∈ rs, w ∈ r.language := by
  fun_induction Regex.choice rs with
  | case1 => exact absurd rfl hne
  | case2 r => simp
  | case3 r rs hrs ih =>
    rw [language_alt, Language.mem_add, ih hrs]
    simp

theorem mem_mul_choice_mul {rs : List Regex} (hne : rs ≠ []) {A B : Language Char} {w : List Char} :
    w ∈ A * ((Regex.choice rs).language * B) ↔ ∃ r ∈ rs, w ∈ A * (r.language * B) := by
  simp only [Language.mem_mul, mem_language_choice hne]
  constructor
  · rintro ⟨u, hu, _, ⟨v, ⟨r, hr, hv⟩, z, hz, rfl⟩, rfl⟩
    exact ⟨r, hr, u, hu, _, ⟨v, hv, z, hz, rfl⟩, rfl⟩
  · rintro ⟨r, hr, u, hu, _, ⟨v, hv, z, hz, rfl⟩, rfl⟩
    exact ⟨u, hu, _, ⟨v, ⟨r, hr, hv⟩, z, hz, rfl⟩, rfl⟩

theorem language_run_run :
    Piece.run.regex.language * Piece.run.regex.language = Piece.run.regex.language := by
  ext w
  rw [Language.mem_mul]
  simp only [mem_language, Piece.regex, matches_run]
  constructor
  · rintro ⟨u, hu, v, hv, rfl⟩
    simp [hu, hv]
  · intro h
    exact ⟨w, h, [], List.not_mem_nil, List.append_nil w⟩

/-! ## Words of pieces -/

/-- A group while it is read: the words of its earlier alternatives, and those of what has been read
of the present one. -/
structure Frame where
  passed : Language Char
  current : Language Char

noncomputable def absorb : List Frame → Piece → List Frame
  | fs, .opening => ⟨0, 1⟩ :: fs
  | f :: g :: fs, .closing => ⟨g.passed, g.current * (f.passed + f.current)⟩ :: fs
  | f :: fs, .bar => ⟨f.passed + f.current, 1⟩ :: fs
  | f :: fs, x => ⟨f.passed, f.current * x.regex.language⟩ :: fs
  | [], _ => []

theorem absorb_single {x : Piece} (hx : x.IsSingle) (f : Frame) (fs : List Frame) :
    absorb (f :: fs) x = ⟨f.passed, f.current * x.regex.language⟩ :: fs := by
  cases hx with
  | simple h =>
    cases x with
    | oneOf | opening | bar | closing => cases h
    | _ => rfl
  | oneOf => rfl

theorem absorb_run_run (fs : List Frame) : absorb (absorb fs .run) .run = absorb fs .run := by
  cases fs with
  | nil => rfl
  | cons f fs =>
    simp only [absorb, mul_assoc, language_run_run]

theorem foldl_absorb_barred {branches : List (List Piece × Regex)} (hne : branches ≠ [])
    (hb : ∀ b ∈ branches, ∀ f fs, b.1.foldl absorb (f :: fs) = ⟨f.passed, f.current * b.2.language⟩ :: fs)
    (passed : Language Char) (fs : List Frame) :
    ∃ f : Frame, (barred (branches.map Prod.fst)).foldl absorb (⟨passed, 1⟩ :: fs) = f :: fs ∧
      f.passed + f.current = passed + (Regex.choice (branches.map Prod.snd)).language := by
  induction branches generalizing passed with
  | nil => exact absurd rfl hne
  | cons b branches ih =>
    have hfirst := hb b List.mem_cons_self ⟨passed, 1⟩ fs
    rw [one_mul] at hfirst
    cases branches with
    | nil => exact ⟨_, hfirst, rfl⟩
    | cons b' branches =>
      obtain ⟨f, hf, hsum⟩ := ih (List.cons_ne_nil _ _)
        (fun d hd => hb d (List.mem_cons_of_mem b hd)) (passed + b.2.language)
      refine ⟨f, ?_, ?_⟩
      · rw [List.map_cons, List.map_cons, barred_cons_cons, List.foldl_append, hfirst, List.foldl_cons]
        exact hf
      · rw [hsum, add_assoc, ← language_alt]
        rfl

theorem Reads.foldl_absorb (h : Reads ps r) (f : Frame) (fs : List Frame) :
    ps.foldl absorb (f :: fs) = ⟨f.passed, f.current * r.language⟩ :: fs := by
  induction h generalizing f fs with
  | nil => rw [language_empty, mul_one]; rfl
  | piece hx _ ih => rw [List.foldl_cons, absorb_single hx, ih, language_seq, mul_assoc]
  | @group branches ps s hne _ _ ihb ih =>
    obtain ⟨g, hg, hsum⟩ := foldl_absorb_barred hne ihb 0 (f :: fs)
    rw [zero_add] at hsum
    have hopen : absorb (f :: fs) .opening = ⟨0, 1⟩ :: f :: fs := rfl
    have hclose : absorb (g :: f :: fs) .closing =
        ⟨f.passed, f.current * (g.passed + g.current)⟩ :: fs := rfl
    rw [List.foldl_cons, hopen, List.foldl_append, hg, List.foldl_cons, hclose, ih, hsum, language_seq,
      mul_assoc]

theorem Reads.append (h : Reads ps r) (hs : Reads qs s) :
    ∃ t, Reads (ps ++ qs) t ∧ t.language = r.language * s.language := by
  induction h with
  | nil => exact ⟨s, hs, by rw [language_empty, one_mul]⟩
  | piece hx _ ih =>
    obtain ⟨t, ht, hlanguage⟩ := ih
    exact ⟨_, .piece hx ht, by rw [language_seq, hlanguage, language_seq, mul_assoc]⟩
  | @group branches ps s' hne hb _ _ ih =>
    obtain ⟨t, ht, hlanguage⟩ := ih
    refine ⟨.seq (.choice (branches.map Prod.snd)) t, ?_, ?_⟩
    · rw [List.cons_append, List.append_assoc, List.cons_append]
      exact .group hne hb ht
    · rw [language_seq, hlanguage, language_seq, mul_assoc]

/-! ## Characters one by one -/

/-- Whether braces open and close in pairs, `depth` of them being open at the start, with commas only
between them. -/
def isBalanced : Nat → List Char → Bool
  | depth, [] => depth == 0
  | depth, c :: cs =>
    if c == '\x7b' then isBalanced (depth + 1) cs
    else if c == '\x7d' then decide (0 < depth) && isBalanced (depth - 1) cs
    else if c == ',' then decide (0 < depth) && isBalanced depth cs
    else isBalanced depth cs

def symbolPiece (c : Char) : Piece :=
  if c == '*' then .run
  else if c == '?' then .one
  else if c == '\x7b' then .opening
  else if c == '\x7d' then .closing
  else if c == ',' then .bar
  else .char c

/-- The pieces of balanced text, character by character but for whole segments `**`. The last of them
is one only if nothing follows the text, which `last` says. -/
def wildPieces (last : Bool) : Bool → List Char → List Piece
  | true, '*' :: '*' :: '/' :: cs => .segments :: wildPieces last true cs
  | true, ['*', '*'] => if last then [.rest] else [.run, .run]
  | _, c :: cs => symbolPiece c :: wildPieces last (c == '/') cs
  | _, [] => []

theorem wildPieces_cons {last start : Bool} (hmany : start = true → ∀ rest, c :: cs ≠ '*' :: '*' :: '/' :: rest)
    (hlast : start = true → c :: cs ≠ manySegments) :
    wildPieces last start (c :: cs) = symbolPiece c :: wildPieces last (c == '/') cs := by
  rw [wildPieces]
  · exact fun rest hstart hc hcs => hmany hstart rest (by rw [hc, hcs])
  · exact fun hstart hc hcs => hlast hstart (by rw [hc, hcs]; rfl)

theorem isBalanced_cons (h : isBalanced depth (c :: cs) = true) :
    ∃ depth', Taken c cs depth (symbolPiece c) depth' ∧ isBalanced depth' cs = true ∧
      (c ≠ '[' → (∀ rest, c :: cs ≠ '*' :: '*' :: rest) → ∀ fuel start,
        piecesFrom (fuel + 1) start depth (c :: cs) =
          symbolPiece c :: piecesFrom fuel (c == '/') depth' cs) := by
  have hchar (hstars : ∀ rest, c :: cs ≠ '*' :: '*' :: rest) (fuel : Nat) (start : Bool) :
      piecesFrom (fuel + 1) start depth (c :: cs) = _ :=
    piecesFrom.eq_6 start depth fuel c cs fun rest hc hcs => hstars rest (by rw [hc, hcs])
  rw [isBalanced] at h
  by_cases hopen : c = '\x7b'
  · subst hopen
    exact ⟨depth + 1, .opening, h, fun _ hstars fuel start => hchar hstars fuel start⟩
  rw [if_neg (by simpa using hopen)] at h
  by_cases hclose : c = '\x7d'
  · subst hclose
    replace h : 0 < depth ∧ isBalanced (depth - 1) cs = true := by simpa using h
    obtain ⟨depth, rfl⟩ : ∃ k, depth = k + 1 := ⟨depth - 1, by omega⟩
    exact ⟨depth, .closing, h.2, fun _ hstars fuel start => hchar hstars fuel start⟩
  rw [if_neg (by simpa using hclose)] at h
  by_cases hcomma : c = ','
  · subst hcomma
    replace h : 0 < depth ∧ isBalanced depth cs = true := by simpa using h
    obtain ⟨depth, rfl⟩ : ∃ k, depth = k + 1 := ⟨depth - 1, by omega⟩
    exact ⟨depth + 1, .bar, h.2, fun _ hstars fuel start => hchar hstars fuel start⟩
  rw [if_neg (by simpa using hcomma)] at h
  refine ⟨depth, .simple ?_, h, ?_⟩
  · unfold symbolPiece
    split
    · rfl
    · split
      · rfl
      · simp [hopen, hclose, hcomma, Piece.isSimple]
  · intro hbracket hstars fuel start
    rw [hchar hstars]
    by_cases hrun : c = '*'
    · subst hrun
      rfl
    by_cases hone : c = '?'
    · subst hone
      rfl
    simp [symbolPiece, hrun, hone, hbracket, hopen, hclose, hcomma]

theorem nested_wildPieces {last start : Bool} (h : isBalanced depth cs = true) :
    Nested depth (wildPieces last start cs) := by
  fun_induction wildPieces last start cs generalizing depth with
  | case1 cs ih => exact (ih h).single (.simple rfl)
  | case2 =>
    obtain rfl : depth = 0 := beq_iff_eq.mp h
    exact (Nested.outside .nil).single (.simple rfl)
  | case3 =>
    obtain rfl : depth = 0 := beq_iff_eq.mp h
    exact ((Nested.outside .nil).single (.simple rfl)).single (.simple rfl)
  | case4 _ c cs _ _ ih =>
    obtain ⟨depth', htaken, hrest, _⟩ := isBalanced_cons h
    have hnested := ih hrest
    generalize hx : symbolPiece c = x at htaken ⊢
    cases htaken with
    | simple hsimple => exact hnested.single (.simple hsimple)
    | oneOf hc =>
      subst hc
      cases hx
    | opening => exact hnested.opening
    | bar => exact hnested.bar
    | closing => exact hnested.closing
  | case5 =>
    obtain rfl : depth = 0 := beq_iff_eq.mp h
    exact .outside .nil

theorem isBalanced_stars (depth : Nat) (cs : List Char) :
    isBalanced depth ('*' :: '*' :: cs) = isBalanced depth cs := rfl

/-- The pieces of balanced text and its characters one by one have the same words. -/
theorem foldl_absorb_piecesFrom {start : Bool} (hbracket : '[' ∉ cs) (h : isBalanced depth cs = true)
    (hfuel : cs.length < fuel) (fs : List Frame) :
    (piecesFrom fuel start depth cs).foldl absorb fs = (wildPieces true start cs).foldl absorb fs := by
  induction fuel generalizing start depth cs fs with
  | zero => cases hfuel
  | succ fuel ih =>
    cases cs with
    | nil =>
      obtain rfl : depth = 0 := beq_iff_eq.mp h
      cases start <;> rfl
    | cons c cs =>
      rw [List.mem_cons, not_or] at hbracket
      rw [List.length_cons] at hfuel
      by_cases hstars : ∃ rest, c :: cs = '*' :: '*' :: rest
      · obtain ⟨rest, heq⟩ := hstars
        cases heq
        rw [isBalanced_stars] at h
        have hrest : '[' ∉ rest := fun hin => hbracket.2 (List.mem_cons_of_mem _ hin)
        rw [List.length_cons] at hfuel
        obtain ⟨fuel, rfl⟩ : ∃ k, fuel = k + 1 := ⟨fuel - 1, by omega⟩
        by_cases hmany : start = true ∧ ∃ rest', rest = '/' :: rest'
        · obtain ⟨rfl, rest, rfl⟩ := hmany
          rw [List.length_cons] at hfuel
          exact ih (fun hin => hrest (List.mem_cons_of_mem _ hin)) h (by omega) _
        by_cases hlast : start = true ∧ rest = []
        · obtain ⟨rfl, rfl⟩ := hlast
          obtain rfl : depth = 0 := beq_iff_eq.mp h
          rfl
        rw [piecesFrom_stars fun hstart =>
            ⟨fun heq => hlast ⟨hstart, heq⟩, fun rest' heq => hmany ⟨hstart, rest', heq⟩⟩,
          wildPieces_cons
            (fun hstart rest' heq => hmany ⟨hstart, rest', (List.cons.inj (List.cons.inj heq).2).2⟩)
            (fun hstart heq => hlast ⟨hstart, (List.cons.inj (List.cons.inj heq).2).2⟩),
          wildPieces_cons (fun hstart => by cases hstart) (fun hstart => by cases hstart)]
        have hsymbol : symbolPiece '*' = .run := rfl
        rw [hsymbol, List.foldl_cons, List.foldl_cons, List.foldl_cons, absorb_run_run]
        exact ih hrest h (by omega) _
      · obtain ⟨depth', _, hrest, hpieces⟩ := isBalanced_cons h
        have hstars' (rest) (heq : c :: cs = '*' :: '*' :: rest) : False := hstars ⟨rest, heq⟩
        rw [hpieces (Ne.symm hbracket.1) hstars', wildPieces_cons (fun _ rest => hstars' _)
          (fun _ => hstars' []), List.foldl_cons, List.foldl_cons, ih hbracket.2 hrest (by omega)]

/-! ## Cutting text in two -/

def behindLastSlash : List Char → List Char
  | [] => []
  | c :: cs => if '/' ∈ c :: cs then behindLastSlash cs else c :: cs

def edgeSegment (u v : List Char) : List Char := behindLastSlash u ++ v.takeWhile (· != '/')

theorem behindLastSlash_of_mem (h : '/' ∈ c :: u) : behindLastSlash (c :: u) = behindLastSlash u := by
  rw [behindLastSlash, if_pos h]

theorem takeWhile_slash (h : c ≠ '/') : (c :: v).takeWhile (· != '/') = c :: v.takeWhile (· != '/') :=
  List.takeWhile_cons_of_pos (by simpa using h)

theorem edgeSegment_of_mem (h : '/' ∈ v) (u w : List Char) : edgeSegment (u ++ v) w = edgeSegment v w := by
  induction u with
  | nil => rfl
  | cons c u ih =>
    have hmem : '/' ∈ c :: (u ++ v) := List.mem_cons_of_mem _ (List.mem_append_right _ h)
    rw [← ih, edgeSegment, List.cons_append, behindLastSlash_of_mem hmem]
    rfl

/-- A segment that does not start the text is not taken for the start. -/
theorem wildPieces_start {last start : Bool} (h : start = true → v.takeWhile (· != '/') ≠ manySegments) :
    wildPieces last start v = wildPieces last false v := by
  cases start with
  | false => rfl
  | true =>
    cases v with
    | nil => rfl
    | cons c v =>
      rw [wildPieces_cons, wildPieces_cons]
      · exact fun hstart => by cases hstart
      · exact fun hstart => by cases hstart
      · rintro - rest heq
        rw [heq] at h
        exact h rfl rfl
      · rintro - heq
        rw [heq] at h
        exact h rfl rfl

/-- Text that starts with no whole segment `**` does not start with one that reaches beyond its end, if
the edge is none. -/
theorem append_ne_manySegments (hmany : ∀ rest, c :: cs ≠ '*' :: '*' :: '/' :: rest)
    (hlast : c :: cs ≠ manySegments) (hedge : edgeSegment (c :: cs) v ≠ manySegments) :
    (∀ rest, c :: cs ++ v ≠ '*' :: '*' :: '/' :: rest) ∧ c :: cs ++ v ≠ manySegments := by
  match cs with
  | [] =>
    refine ⟨fun rest heq => ?_, fun heq => ?_⟩
    · cases heq
      exact hedge rfl
    · cases heq
      exact hedge rfl
  | [d] =>
    refine ⟨fun rest heq => ?_, fun heq => ?_⟩
    · cases heq
      exact hlast rfl
    · cases heq
      exact hlast rfl
  | d :: e :: cs =>
    refine ⟨fun rest heq => ?_, fun heq => ?_⟩
    · simp only [List.cons_append, List.cons.injEq] at heq
      exact hmany cs (by rw [heq.1, heq.2.1, heq.2.2.1])
    · simp [manySegments] at heq

/-- Text may be cut where no whole segment `**` is. -/
theorem wildPieces_append {last start : Bool}
    (h : start = true ∨ '/' ∈ u → edgeSegment u v ≠ manySegments) :
    wildPieces last start (u ++ v) = wildPieces false start u ++ wildPieces last false v := by
  fun_induction wildPieces false start u with
  | case1 cs ih =>
    have hedge : edgeSegment ('*' :: '*' :: '/' :: cs) v = edgeSegment cs v := by
      rw [edgeSegment, behindLastSlash_of_mem (by simp), behindLastSlash_of_mem (by simp),
        behindLastSlash_of_mem (by simp)]
      rfl
    rw [hedge] at h
    change Piece.segments :: wildPieces last true (cs ++ v) =
      .segments :: (wildPieces false true cs ++ wildPieces last false v)
    rw [ih fun _ => h (.inl rfl)]
  | case2 hlast => cases hlast
  | case3 =>
    have hstars : edgeSegment ['*', '*'] v = '*' :: '*' :: v.takeWhile (· != '/') := rfl
    have hedge := h (.inl rfl)
    rw [hstars] at hedge
    have hmany (rest) (heq : '*' :: '*' :: v = '*' :: '*' :: '/' :: rest) : False := by
      cases heq
      exact hedge rfl
    have hlast (heq : '*' :: '*' :: v = manySegments) : False := by
      cases heq
      exact hedge rfl
    change wildPieces last true ('*' :: '*' :: v) = .run :: .run :: wildPieces last false v
    rw [wildPieces_cons (fun _ => hmany) (fun _ => hlast),
      wildPieces_cons (fun hstart => by cases hstart) (fun hstart => by cases hstart)]
    rfl
  | case4 start c cs hmany hlast ih =>
    have hrest : (c == '/') = true ∨ '/' ∈ cs → edgeSegment cs v ≠ manySegments := by
      intro hslash
      have hmem : '/' ∈ c :: cs := by
        rcases hslash with hc | hcs
        · exact List.mem_cons.mpr (.inl (beq_iff_eq.mp hc).symm)
        · exact List.mem_cons_of_mem c hcs
      have hedge := h (.inr hmem)
      rwa [edgeSegment, behindLastSlash_of_mem hmem] at hedge
    rw [List.cons_append, List.cons_append, ← ih hrest]
    have hcut (hstart : start = true) := append_ne_manySegments
      (fun rest heq => hmany rest hstart (List.cons.inj heq).1 (List.cons.inj heq).2)
      (fun heq => hlast hstart (List.cons.inj heq).1 (List.cons.inj heq).2) (h (.inl hstart))
    exact wildPieces_cons (fun hstart => (hcut hstart).1) fun hstart => (hcut hstart).2
  | case5 start => exact wildPieces_start fun hstart => h (.inl hstart)

theorem wildPieces_symbol {last start : Bool} (hstar : c ≠ '*') (hslash : c ≠ '/') :
    wildPieces last start (u ++ c :: v) =
      wildPieces false start u ++ symbolPiece c :: wildPieces last false v := by
  have hedge : edgeSegment u (c :: v) ≠ manySegments := by
    intro heq
    have hin : c ∈ manySegments := by
      rw [← heq, edgeSegment, takeWhile_slash hslash]
      simp
    simp [manySegments, hstar] at hin
  rw [wildPieces_append fun _ => hedge, wildPieces_cons (fun hstart => by cases hstart)
    (fun hstart => by cases hstart), beq_eq_false_iff_ne.mpr hslash]

/-! ## Alternatives spelt out -/

theorem isBalanced_append {depth' : Nat} (hu : isBalanced depth u = true) (hv : isBalanced depth' v = true) :
    isBalanced (depth + depth') (u ++ v) = true := by
  induction u generalizing depth with
  | nil =>
    obtain rfl : depth = 0 := beq_iff_eq.mp hu
    rwa [Nat.zero_add]
  | cons c u ih =>
    rw [isBalanced] at hu
    rw [List.cons_append, isBalanced]
    split
    · next hopen =>
      rw [if_pos hopen] at hu
      rw [Nat.add_right_comm]
      exact ih hu
    · next hopen =>
      rw [if_neg hopen] at hu
      split
      · next hclose =>
        rw [if_pos hclose, Bool.and_eq_true, decide_eq_true_eq] at hu
        obtain ⟨depth, rfl⟩ : ∃ k, depth = k + 1 := ⟨depth - 1, by omega⟩
        rw [Nat.add_right_comm]
        exact Bool.and_eq_true_iff.mpr ⟨decide_eq_true (Nat.succ_pos _), ih hu.2⟩
      · next hclose =>
        rw [if_neg hclose] at hu
        split
        · next hcomma =>
          rw [if_pos hcomma, Bool.and_eq_true, decide_eq_true_eq] at hu
          exact Bool.and_eq_true_iff.mpr ⟨decide_eq_true (by omega), ih hu.2⟩
        · next hcomma =>
          rw [if_neg hcomma] at hu
          exact ih hu

theorem wildPieces_alternatives {last : Bool} {xs : List (List Char)} (hne : xs ≠ []) :
    wildPieces last false ([','].intercalate xs ++ '\x7d' :: v) =
      barred (xs.map (wildPieces false false)) ++ .closing :: wildPieces last false v := by
  induction xs with
  | nil => exact absurd rfl hne
  | cons x xs ih =>
    cases xs with
    | nil =>
      rw [List.intercalate_singleton, wildPieces_symbol (by decide) (by decide)]
      rfl
    | cons y xs =>
      rw [List.intercalate_cons_cons, List.append_assoc, List.append_assoc, List.singleton_append,
        wildPieces_symbol (by decide) (by decide), ih (List.cons_ne_nil _ _), List.map_cons, List.map_cons,
        List.map_cons, barred_cons_cons, List.append_assoc]
      rfl

theorem isBalanced_alternatives {xs : List (List Char)} (hxs : ∀ x ∈ xs, isBalanced 0 x = true)
    (hne : xs ≠ []) (hv : isBalanced 0 v = true) :
    isBalanced 1 ([','].intercalate xs ++ '\x7d' :: v) = true := by
  induction xs with
  | nil => exact absurd rfl hne
  | cons x xs ih =>
    have hx := hxs x List.mem_cons_self
    cases xs with
    | nil =>
      rw [List.intercalate_singleton, ← Nat.zero_add 1]
      exact isBalanced_append hx hv
    | cons y xs =>
      rw [List.intercalate_cons_cons, List.append_assoc, List.append_assoc, ← Nat.zero_add 1]
      exact isBalanced_append hx (ih (fun z hz => hxs z (List.mem_cons_of_mem x hz)) (List.cons_ne_nil _ _))

theorem compileGlob_language {glob : String} (hbracket : '[' ∉ glob.toList) (hslash : '\\' ∉ glob.toList)
    (hdot : ∀ rest, glob.toList ≠ '.' :: '/' :: rest) (hbalanced : isBalanced 0 glob.toList = true)
    (hs : Reads (wildPieces true true glob.toList) s) :
    ∃ r, compileGlob glob = .ok r ∧ r.language = s.language := by
  have hbodies := classBodies_of_notMem hbracket
  have hordered : ClassesInOrder glob := by
    intro body hbody
    rw [hbodies] at hbody
    cases hbody
  obtain ⟨r, hr, hcompile⟩ := compileGlob_of_filled (by rw [hbodies]; exact List.not_mem_nil)
  rw [if_pos hordered] at hcompile
  rw [normalizeChars_of_ne hslash hdot] at hr
  have hframes : (pieces glob.toList).foldl absorb [⟨0, 1⟩] =
      (wildPieces true true glob.toList).foldl absorb [⟨0, 1⟩] :=
    foldl_absorb_piecesFrom hbracket hbalanced (Nat.lt_succ_self _) _
  rw [hr.foldl_absorb, hs.foldl_absorb] at hframes
  simp only [one_mul, List.cons.injEq, Frame.mk.injEq, true_and, and_true] at hframes
  exact ⟨r, hcompile, hframes⟩

/-- Text without characters that mean something for classes, groups or separators. -/
def IsBare (s : String) : Prop := ∀ c ∈ "[]\x7b\x7d,\\".toList, c ∉ s.toList

instance (s : String) : Decidable (IsBare s) :=
  List.decidableBAll (fun c : Char => c ∉ s.toList) "[]\x7b\x7d,\\".toList

/-- What may stand between commas: groups in it are closed, and no comma is outside of them. -/
structure IsAlternative (x : String) : Prop where
  bracket : '[' ∉ x.toList
  backslash : '\\' ∉ x.toList
  balanced : isBalanced 0 x.toList = true

theorem isBalanced_of_bare (hopen : '\x7b' ∉ cs) (hclose : '\x7d' ∉ cs) (hcomma : ',' ∉ cs) :
    isBalanced 0 cs = true := by
  induction cs with
  | nil => rfl
  | cons c cs ih =>
    rw [List.mem_cons, not_or] at hopen hclose hcomma
    rw [isBalanced, if_neg (by simpa using Ne.symm hopen.1), if_neg (by simpa using Ne.symm hclose.1),
      if_neg (by simpa using Ne.symm hcomma.1)]
    exact ih hopen.2 hclose.2 hcomma.2

theorem IsBare.isAlternative {s : String} (h : IsBare s) : IsAlternative s where
  bracket := h '[' (by decide)
  backslash := h '\\' (by decide)
  balanced := isBalanced_of_bare (h '\x7b' (by decide)) (h '\x7d' (by decide)) (h ',' (by decide))

def braced (a : String) (xs : List String) (b : String) : String :=
  a ++ "\x7b" ++ Text.join "," xs ++ "\x7d" ++ b

theorem toList_braced (a : String) (xs : List String) (b : String) :
    (braced a xs b).toList =
      a.toList ++ '\x7b' :: ([','].intercalate (xs.map String.toList) ++ '\x7d' :: b.toList) := by
  simp only [braced, Text.join, String.toList_append, String.toList_intercalate, List.append_assoc]
  rfl

theorem notMem_braced {a b : String} {xs : List String} (ha : c ∉ a.toList) (hb : c ∉ b.toList)
    (hxs : ∀ x ∈ xs, c ∉ x.toList) (hc : c ∉ "\x7b,\x7d".toList) : c ∉ (braced a xs b).toList := by
  rw [toList_braced]
  intro h
  simp only [List.mem_append, List.mem_cons] at h
  rcases h with h | h | h | h | h
  · exact ha h
  · exact hc (by rw [h]; decide)
  · rcases Text.mem_intercalate h with hsep | ⟨z, hz, hin⟩
    · exact hc (by rw [hsep]; decide)
    · obtain ⟨x, hx, rfl⟩ := List.mem_map.mp hz
      exact hxs x hx hin
  · exact hc (by rw [h]; decide)
  · exact hb h

theorem matchGlob_language {glob : String} (hglob : IsAlternative glob)
    (hdot : ∀ rest, glob.toList ≠ '.' :: '/' :: rest) (hs : Reads (wildPieces true true glob.toList) s)
    (path : String) :
    ∃ v, matchGlob path glob = .ok v ∧ (v = true ↔ normalizeChars path.toList ∈ s.language) := by
  obtain ⟨r, hr, hlanguage⟩ := compileGlob_language hglob.bracket hglob.backslash hdot hglob.balanced hs
  refine ⟨r.accepts (normalizeChars path.toList), ?_, ?_⟩
  · rw [matchGlob, hr]
    rfl
  · rw [Regex.accepts_iff, ← hlanguage]
    rfl

section

variable {a b : String} {xs : List String}

theorem IsAlternative.append {x y : String} (hx : IsAlternative x) (hy : IsAlternative y) :
    IsAlternative (x ++ y) where
  bracket := by
    rw [String.toList_append, List.mem_append, not_or]
    exact ⟨hx.bracket, hy.bracket⟩
  backslash := by
    rw [String.toList_append, List.mem_append, not_or]
    exact ⟨hx.backslash, hy.backslash⟩
  balanced := by
    rw [String.toList_append]
    exact isBalanced_append hx.balanced hy.balanced

theorem isAlternative_braced (ha : IsAlternative a) (hb : IsAlternative b) (hne : xs ≠ [])
    (hxs : ∀ x ∈ xs, IsAlternative x) : IsAlternative (braced a xs b) where
  bracket := notMem_braced ha.bracket hb.bracket (fun x hx => (hxs x hx).bracket) (by decide)
  backslash := notMem_braced ha.backslash hb.backslash (fun x hx => (hxs x hx).backslash) (by decide)
  balanced := by
    have hbalanced : ∀ cs ∈ xs.map String.toList, isBalanced 0 cs = true := by
      intro cs hcs
      obtain ⟨x, hx, rfl⟩ := List.mem_map.mp hcs
      exact (hxs x hx).balanced
    have hgroup := isBalanced_alternatives hbalanced (by simpa using hne) hb.balanced
    rw [toList_braced, ← Nat.zero_add 0]
    exact isBalanced_append ha.balanced hgroup

/-- No whole segment `**` reaches over an edge of an alternative, or up to it. -/
def EdgesClear (a x b : String) : Prop :=
  edgeSegment a.toList (x ++ b).toList ≠ manySegments ∧ edgeSegment (a ++ x).toList b.toList ≠ manySegments

instance (a x b : String) : Decidable (EdgesClear a x b) :=
  inferInstanceAs (Decidable (_ ∧ _))

/-- A glob with its edges clear is made of the same pieces as the alternative between braces. -/
theorem wildPieces_spelt {x : String} (h : EdgesClear a x b) :
    wildPieces true true (a ++ x ++ b).toList =
      wildPieces false true a.toList ++ (wildPieces false false x.toList ++ wildPieces true false b.toList) := by
  obtain ⟨hfront, hback⟩ := h
  rw [String.toList_append] at hfront hback
  rw [String.toList_append, String.toList_append, List.append_assoc, wildPieces_append fun _ => hfront,
    wildPieces_append]
  rintro (hstart | hslash)
  · cases hstart
  · rwa [edgeSegment_of_mem hslash] at hback

theorem wildPieces_braced (hne : xs ≠ []) :
    wildPieces true true (braced a xs b).toList =
      wildPieces false true a.toList ++ .opening ::
        (barred (xs.map fun x => wildPieces false false x.toList) ++ .closing ::
          wildPieces true false b.toList) := by
  rw [toList_braced, wildPieces_symbol (by decide) (by decide),
    wildPieces_alternatives (by simpa using hne), List.map_map]
  rfl

theorem braced_ne_dotSlash (hne : xs ≠ []) (hdot : ∀ x ∈ xs, ∀ rest, (a ++ x ++ b).toList ≠ '.' :: '/' :: rest)
    (rest : List Char) : (braced a xs b).toList ≠ '.' :: '/' :: rest := by
  rw [toList_braced]
  intro heq
  obtain ⟨x, hx⟩ := List.exists_mem_of_ne_nil xs hne
  have hspelt := hdot x hx
  rw [String.toList_append, String.toList_append] at hspelt
  match a.toList, heq, hspelt with
  | [], heq, _ => cases heq
  | [_], heq, _ => cases heq
  | _ :: _ :: cs, heq, hspelt =>
    cases heq
    exact hspelt _ rfl

/-- Alternatives between braces match what the globs that spell them out match. -/
theorem matchGlob_braced (ha : IsBare a) (hb : IsBare b) (hne : xs ≠ [])
    (hxs : ∀ x ∈ xs, IsAlternative x) (hdot : ∀ x ∈ xs, ∀ rest, (a ++ x ++ b).toList ≠ '.' :: '/' :: rest)
    (hedges : ∀ x ∈ xs, EdgesClear a x b) (path : String) :
    ∃ v, matchGlob path (braced a xs b) = .ok v ∧
      (∀ x ∈ xs, ∃ w, matchGlob path (a ++ x ++ b) = .ok w) ∧
      (v = true ↔ ∃ x ∈ xs, matchGlob path (a ++ x ++ b) = .ok true) := by
  have hfront : IsAlternative a := ha.isAlternative
  have hback : IsAlternative b := hb.isAlternative
  have hna : Nested 0 (wildPieces false true a.toList) := nested_wildPieces hfront.balanced
  have hnb : Nested 0 (wildPieces true false b.toList) := nested_wildPieces hback.balanced
  obtain ⟨ra, hra⟩ := hna.reads
  obtain ⟨rb, hrb⟩ := hnb.reads
  have hreads (x : String) (hx : x ∈ xs) : ∃ r, Reads (wildPieces false false x.toList) r :=
    (nested_wildPieces (hxs x hx).balanced).reads
  have : Nonempty Regex := ⟨.empty⟩
  choose! rx hrx using hreads
  -- An alternative is read on its own, so the glob that spells it out has the words of three parts.
  have hspelt (x : String) (hx : x ∈ xs) : ∃ w, matchGlob path (a ++ x ++ b) = .ok w ∧
      (w = true ↔ normalizeChars path.toList ∈ ra.language * ((rx x).language * rb.language)) := by
    obtain ⟨t, ht, hlanguage⟩ := (hrx x hx).append hrb
    obtain ⟨t', ht', hlanguage'⟩ := hra.append ht
    rw [← wildPieces_spelt (hedges x hx)] at ht'
    rw [← hlanguage, ← hlanguage']
    exact matchGlob_language ((hfront.append (hxs x hx)).append hback) (hdot x hx) ht' path
  have hbranches : ∀ d ∈ xs.map fun x => (wildPieces false false x.toList, rx x), Reads d.1 d.2 := by
    intro d hd
    obtain ⟨x, hx, rfl⟩ := List.mem_map.mp hd
    exact hrx x hx
  have hgroup := Reads.group (by simpa using hne) hbranches hrb
  obtain ⟨t, ht, hlanguage⟩ := hra.append hgroup
  have hfst : (Prod.fst ∘ fun x => (wildPieces false false x.toList, rx x)) =
      fun x : String => wildPieces false false x.toList := rfl
  have hsnd : (Prod.snd ∘ fun x : String => (wildPieces false false x.toList, rx x)) = rx := rfl
  rw [List.map_map, hfst, ← wildPieces_braced hne] at ht
  rw [List.map_map, hsnd, language_seq] at hlanguage
  obtain ⟨v, hv, hiff⟩ :=
    matchGlob_language (isAlternative_braced hfront hback hne hxs) (braced_ne_dotSlash hne hdot) ht path
  refine ⟨v, hv, fun x hx => ?_, ?_⟩
  · obtain ⟨w, hw, _⟩ := hspelt x hx
    exact ⟨w, hw⟩
  · rw [hiff, hlanguage, mem_mul_choice_mul (by simpa using hne)]
    constructor
    · rintro ⟨r, hr, hwords⟩
      obtain ⟨x, hx, rfl⟩ := List.mem_map.mp hr
      obtain ⟨w, hw, hwiff⟩ := hspelt x hx
      exact ⟨x, hx, by rw [hw, hwiff.mpr hwords]⟩
    · rintro ⟨x, hx, hmatch⟩
      obtain ⟨w, hw, hwiff⟩ := hspelt x hx
      rw [hmatch] at hw
      cases hw
      exact ⟨rx x, List.mem_map_of_mem hx, hwiff.mp rfl⟩

end

/-- Sources at any depth, in one of two languages, or a single script. -/
theorem matchGlob_braced_nested :
    IsBare "src/" ∧ IsBare "" ∧ (∀ x ∈ ["lib/**/*.\x7bts,tsx\x7d", "?.js"], IsAlternative x) ∧
      (∀ x ∈ ["lib/**/*.\x7bts,tsx\x7d", "?.js"], EdgesClear "src/" x "") ∧
      matchGlob "src/lib/a/b.ts" (braced "src/" ["lib/**/*.\x7bts,tsx\x7d", "?.js"] "") = .ok true ∧
      ∃ x ∈ ["lib/**/*.\x7bts,tsx\x7d", "?.js"], matchGlob "src/lib/a/b.ts" ("src/" ++ x ++ "") = .ok true := by
  have hbare : IsBare "src/" := by decide
  have hbare' : IsBare "" := by decide
  have hxs : ∀ x ∈ ["lib/**/*.\x7bts,tsx\x7d", "?.js"], IsAlternative x := by
    intro x hx
    rcases List.mem_pair.mp hx with rfl | rfl
    · exact ⟨by decide, by decide, by decide⟩
    · exact ⟨by decide, by decide, by decide⟩
  have hdot : ∀ x ∈ ["lib/**/*.\x7bts,tsx\x7d", "?.js"], ∀ rest,
      ("src/" ++ x ++ "").toList ≠ '.' :: '/' :: rest := by
    intro x hx rest heq
    rw [String.toList_append, String.toList_append] at heq
    cases heq
  have hedges : ∀ x ∈ ["lib/**/*.\x7bts,tsx\x7d", "?.js"], EdgesClear "src/" x "" := by decide
  obtain ⟨v, hv, _, hiff⟩ :=
    matchGlob_braced hbare hbare' (List.cons_ne_nil _ _) hxs hdot hedges "src/lib/a/b.ts"
  have hmatch : matchGlob "src/lib/a/b.ts" (braced "src/" ["lib/**/*.\x7bts,tsx\x7d", "?.js"] "") =
      .ok true := by decide +kernel
  rw [hmatch, Except.ok.injEq] at hv
  exact ⟨hbare, hbare', hxs, hedges, hmatch, hiff.mp hv.symm⟩

/-- Between braces `**` is no whole segment, so the single alternative is missed. -/
theorem braced_many_missed :
    IsBare "" ∧ IsAlternative "**/a" ∧ matchGlob "a" (braced "" ["**/a"] "") = .ok false ∧
      matchGlob "a" ("" ++ "**/a" ++ "") = .ok true :=
  ⟨by decide, ⟨by decide, by decide, by decide⟩, by decide +kernel, by decide +kernel⟩

end JudgedLint.Pattern
