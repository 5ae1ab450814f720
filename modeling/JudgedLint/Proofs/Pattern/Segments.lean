import JudgedLint.Pattern.Glob
import JudgedLint.Proofs.Except
import JudgedLint.Proofs.Pattern.Places
import JudgedLint.Proofs.Text.Split

/-! What a glob without classes and alternatives means, segment by segment: `**` alone stands for any
number of segments, every other segment of the glob for one segment of the path. The glob is turned
into an expression character by character and matched as a whole, so nothing in the code speaks of
segments; the main statement says that they decide. -/
namespace JudgedLint.Pattern

open Regex (Matches)
open Text (splitOnChar)

variable {c : Char} {p u v cs rest tail : List Char} {ps : List Piece} {fuel : Nat}

/-- A segment of a path that a segment of a glob stands for. -/
inductive SegmentFits : List Char → List Char → Prop where
  | nil : SegmentFits [] []
  | star {p s : List Char} (u : List Char) (h : SegmentFits p s) : SegmentFits ('*' :: p) (u ++ s)
  | one {p s : List Char} (c : Char) (h : SegmentFits p s) : SegmentFits ('?' :: p) (c :: s)
  | char {p s : List Char} (c : Char) (hstar : c ≠ '*') (hone : c ≠ '?') (h : SegmentFits p s) :
    SegmentFits (c :: p) (c :: s)

def manySegments : List Char := ['*', '*']

/-- Segments of a path that the segments of a glob stand for, in their order. -/
inductive PathFits : List (List Char) → List (List Char) → Prop where
  | nil : PathFits [] []
  | all {ss : List (List Char)} (h : ss ≠ []) : PathFits [manySegments] ss
  | several {p : List Char} {ps ss : List (List Char)} (passed : List (List Char))
    (h : PathFits (p :: ps) ss) : PathFits (manySegments :: p :: ps) (passed ++ ss)
  | segment {p s : List Char} {ps ss : List (List Char)} (hp : p ≠ manySegments)
    (hs : SegmentFits p s) (h : PathFits ps ss) : PathFits (p :: ps) (s :: ss)

/-! ## The expression of a glob -/

def notSlash : Regex := .oneOf ⟨true, [('/', '/')]⟩

def classMembers : List Char → List (Char × Char)
  | low :: '-' :: high :: rest => (low, high) :: classMembers rest
  | c :: rest => (c, c) :: classMembers rest
  | [] => []

def Piece.regex : Piece → Regex
  | .segments => .star (.seq (.star notSlash) (.seq (.char '/') .empty))
  | .rest => .star .any
  | .run => .star notSlash
  | .one => notSlash
  | .oneOf negated body => .oneOf ⟨negated, classMembers body⟩
  | .char c => .char c
  | _ => .empty

def Piece.isSimple : Piece → Bool
  | .segments | .rest | .run | .one | .char _ => true
  | _ => false

theorem regexText_segments : Piece.segments.regexText =
    ['(', '?', ':', '[', '^', '/', ']', '*', '/', ')', '*'] := by decide

theorem regexText_rest : Piece.rest.regexText = ['.', '*'] := by decide

theorem regexText_run : Piece.run.regexText = ['[', '^', '/', ']', '*'] := by decide

theorem regexText_one : Piece.one.regexText = ['[', '^', '/', ']'] := by decide

theorem regexText_opening : Piece.opening.regexText = ['(', '?', ':'] := by decide

theorem regexText_char (c : Char) : (Piece.char c).regexText = escapedChar c := rfl

theorem length_regexText_pos (x : Piece) : 0 < x.regexText.length := by
  cases x with
  | char c =>
    rw [regexText_char, escapedChar]
    split <;> simp
  | segments => rw [regexText_segments]; simp
  | rest => rw [regexText_rest]; simp
  | run => rw [regexText_run]; simp
  | one => rw [regexText_one]; simp
  | oneOf negated body => exact Nat.succ_pos _
  | opening => rw [regexText_opening]; simp
  | bar => exact Nat.one_pos
  | closing => exact Nat.one_pos

/-- What can stand behind an expression without repeating it. -/
def StartsNoStar (cs : List Char) : Prop := ∀ rest, cs ≠ '*' :: rest

theorem starred_of_noStar {r : Regex} (h : StartsNoStar cs) : starred r cs = (r, cs) := by
  rw [starred]
  exact h

theorem startsNoStar_escapedChar (c : Char) (tail : List Char) :
    StartsNoStar (escapedChar c ++ tail) := by
  intro rest heq
  unfold escapedChar at heq
  split at heq
  · cases heq
  · next hspecial =>
    obtain rfl := (List.cons.inj heq).1
    exact hspecial (by decide)

theorem startsNoStar_regexText (x : Piece) (tail : List Char) : StartsNoStar (x.regexText ++ tail) := by
  cases x with
  | char c => exact startsNoStar_escapedChar c tail
  | segments => rw [regexText_segments]; exact fun _ heq => by cases heq
  | rest => rw [regexText_rest]; exact fun _ heq => by cases heq
  | run => rw [regexText_run]; exact fun _ heq => by cases heq
  | one => rw [regexText_one]; exact fun _ heq => by cases heq
  | oneOf negated body => exact fun _ heq => by cases heq
  | opening => rw [regexText_opening]; exact fun _ heq => by cases heq
  | bar => exact fun _ heq => by cases heq
  | closing => exact fun _ heq => by cases heq

theorem startsNoStar_pieces (ps : List Piece) (htail : StartsNoStar tail) :
    StartsNoStar (ps.flatMap Piece.regexText ++ tail) := by
  cases ps with
  | nil => exact htail
  | cons x ps =>
    rw [List.flatMap_cons, List.append_assoc]
    exact startsNoStar_regexText x _

def readBehind (r : Regex) (read : Except RegexError (Regex × List Char)) :
    Except RegexError (Regex × List Char) := read.map fun behind => (.seq r behind.1, behind.2)

theorem sequenceText_cons {r r' : Regex} {behind : List Char} (hbar : c ≠ '|') (hclose : c ≠ ')')
    (hatom : atomText fuel c rest = .ok (r, tail)) (hstar : starred r tail = (r', behind)) :
    sequenceText (fuel + 1) (c :: rest) = readBehind r' (sequenceText fuel behind) := by
  have hgo : (c == '|' || c == ')') = false := by simp [hbar, hclose]
  rw [sequenceText, hgo, hatom]
  change (sequenceText fuel (starred r tail).2 >>= fun read =>
    pure (Regex.seq (starred r tail).1 read.1, read.2)) = _
  rw [hstar]
  cases sequenceText fuel behind <;> rfl

theorem atomText_notSlash : atomText (fuel + 1) '[' ('^' :: '/' :: ']' :: rest) = .ok (notSlash, rest) := by
  have hclass : classText ('^' :: '/' :: ']' :: rest) = .ok (⟨true, [('/', '/')]⟩, rest) := by
    simp only [classText, classRanges, classChar]
    rfl
  rw [atomText, if_pos (show ('[' == '[') = true from rfl), hclass]
  rfl

theorem atomText_escaped (fuel : Nat) (c : Char) (tail : List Char) :
    ∃ d, escapedChar c = d :: (escapedChar c).tail ∧ d ≠ '|' ∧
    d ≠ ')' ∧ atomText (fuel + 1) d ((escapedChar c).tail ++ tail) = .ok (.char c, tail) := by
  unfold escapedChar
  split
  · exact ⟨'\\', rfl, by decide, by decide, rfl⟩
  · next hspecial =>
    have hne (d : Char) (hd : isSpecial d = true) : c ≠ d := by
      rintro rfl
      exact hspecial hd
    refine ⟨c, rfl, hne '|' (by decide), hne ')' (by decide), ?_⟩
    change atomText (fuel + 1) c tail = _
    unfold atomText
    rw [if_neg (by simpa using hne '[' (by decide)), if_neg (by simpa using hne '.' (by decide)),
      if_neg (by simpa using hne '*' (by decide)), if_neg (by simpa using hne '\\' (by decide)),
      if_neg (by simpa using hne '(' (by decide))]

theorem atomText_segments : atomText (fuel + 5) '('
    ('?' :: ':' :: '[' :: '^' :: '/' :: ']' :: '*' :: '/' :: ')' :: rest) =
      .ok (.seq (.star notSlash) (.seq (.char '/') .empty), rest) := by
  have hslash : sequenceText (fuel + 2) ('/' :: ')' :: rest) =
      readBehind (.char '/') (sequenceText (fuel + 1) (')' :: rest)) :=
    sequenceText_cons (by decide) (by decide) rfl rfl
  have hgroup : sequenceText (fuel + 3) ('[' :: '^' :: '/' :: ']' :: '*' :: '/' :: ')' :: rest) =
      readBehind (.star notSlash) (sequenceText (fuel + 2) ('/' :: ')' :: rest)) :=
    sequenceText_cons (by decide) (by decide) atomText_notSlash rfl
  have halternatives : alternatives (fuel + 4) ('[' :: '^' :: '/' :: ']' :: '*' :: '/' :: ')' :: rest) =
      .ok (.seq (.star notSlash) (.seq (.char '/') .empty), ')' :: rest) := by
    rw [alternatives, hgroup, hslash]
    rfl
  rw [atomText]
  simp only [List.drop, halternatives]
  rfl

theorem sequenceText_simple {x : Piece} (hx : x.isSimple = true) (hfuel : x.regexText.length ≤ fuel)
    (htail : StartsNoStar tail) :
    sequenceText (fuel + 1) (x.regexText ++ tail) = readBehind x.regex (sequenceText fuel tail) := by
  cases x with
  | segments =>
    rw [regexText_segments] at hfuel ⊢
    obtain ⟨k, rfl⟩ : ∃ k, fuel = k + 5 := ⟨fuel - 5, by simp at hfuel; omega⟩
    exact sequenceText_cons (by decide) (by decide) atomText_segments rfl
  | rest =>
    rw [regexText_rest] at hfuel ⊢
    obtain ⟨k, rfl⟩ : ∃ k, fuel = k + 1 := ⟨fuel - 1, by simp at hfuel; omega⟩
    exact sequenceText_cons (by decide) (by decide) rfl rfl
  | run =>
    rw [regexText_run] at hfuel ⊢
    obtain ⟨k, rfl⟩ : ∃ k, fuel = k + 1 := ⟨fuel - 1, by simp at hfuel; omega⟩
    exact sequenceText_cons (by decide) (by decide) atomText_notSlash rfl
  | one =>
    rw [regexText_one] at hfuel ⊢
    obtain ⟨k, rfl⟩ : ∃ k, fuel = k + 1 := ⟨fuel - 1, by simp at hfuel; omega⟩
    exact sequenceText_cons (by decide) (by decide) atomText_notSlash (starred_of_noStar htail)
  | char c =>
    rw [regexText_char] at hfuel ⊢
    have hlength := length_regexText_pos (.char c)
    rw [regexText_char] at hlength
    obtain ⟨k, rfl⟩ : ∃ k, fuel = k + 1 := ⟨fuel - 1, by omega⟩
    obtain ⟨d, hd, hbar, hclose, hatom⟩ := atomText_escaped k c tail
    rw [hd, List.cons_append]
    exact sequenceText_cons hbar hclose hatom (starred_of_noStar htail)
  | oneOf _ _ => cases hx
  | opening => cases hx
  | bar => cases hx
  | closing => cases hx

/-- The written form of pieces is read as their expressions, one after the other. -/
theorem sequenceText_pieces (h : ∀ x ∈ ps, x.isSimple = true)
    (hfuel : (ps.flatMap Piece.regexText).length < fuel) :
    sequenceText fuel (ps.flatMap Piece.regexText) = .ok (Regex.sequence (ps.map Piece.regex), []) := by
  induction ps generalizing fuel with
  | nil =>
    obtain ⟨k, rfl⟩ : ∃ k, fuel = k + 1 := ⟨fuel - 1, by omega⟩
    rfl
  | cons x ps ih =>
    have hnoStar : StartsNoStar (ps.flatMap Piece.regexText ++ []) :=
      startsNoStar_pieces ps fun _ heq => by cases heq
    have hpos := length_regexText_pos x
    rw [List.append_nil] at hnoStar
    rw [List.flatMap_cons] at hfuel ⊢
    rw [List.length_append] at hfuel
    obtain ⟨k, rfl⟩ : ∃ k, fuel = k + 1 := ⟨fuel - 1, by omega⟩
    rw [sequenceText_simple (h x List.mem_cons_self) (by omega) hnoStar,
      ih (fun y hy => h y (List.mem_cons_of_mem x hy)) (by omega)]
    rfl

theorem ofText_pieces (h : ∀ x ∈ ps, x.isSimple = true) :
    Regex.ofText (ps.flatMap Piece.regexText) = .ok (Regex.sequence (ps.map Piece.regex)) := by
  rw [Regex.ofText, alternatives, sequenceText_pieces h (by omega)]
  rfl

/-! ## Words of pieces -/

theorem matches_sequence_cons {r : Regex} {rs : List Regex} {w : List Char} :
    Matches (Regex.sequence (r :: rs)) w ↔
      ∃ u v, w = u ++ v ∧ Matches r u ∧ Matches (Regex.sequence rs) v := by
  constructor
  · intro h
    cases h with
    | seq hu hv => exact ⟨_, _, rfl, hu, hv⟩
  · rintro ⟨u, v, rfl, hu, hv⟩
    exact .seq hu hv

theorem matches_notSlash : Matches notSlash u ↔ ∃ c, c ≠ '/' ∧ u = [c] := by
  have hholds (c : Char) : CharClass.holds ⟨true, [('/', '/')]⟩ c = true ↔ c ≠ '/' := by
    by_cases hc : c = '/'
    · subst hc
      decide
    · have hout : ¬('/' ≤ c ∧ c ≤ '/') := fun h => hc (Char.le_antisymm h.2 h.1)
      have hneg : ('/' ≤ c && c ≤ '/') = false := by simpa using hout
      simp [CharClass.holds, hneg, hc]
  constructor
  · rintro ⟨⟩
    exact ⟨_, (hholds _).mp ‹_›, rfl⟩
  · rintro ⟨c, hc, rfl⟩
    exact .oneOf _ c ((hholds c).mpr hc)

theorem matches_star {r : Regex} {p : Char → Prop} (h : ∀ u, Matches r u ↔ ∃ c, p c ∧ u = [c]) :
    Matches (.star r) u ↔ ∀ c ∈ u, p c := by
  constructor
  · intro hstar
    generalize heq : Regex.star r = s at hstar
    induction hstar with
    | starNil => exact fun c hc => by cases hc
    | starCons hu _ _ ih =>
      cases heq
      obtain ⟨c, hc, rfl⟩ := (h _).mp hu
      intro d hd
      rcases List.mem_cons.mp hd with rfl | hd
      · exact hc
      · exact ih rfl d hd
    | _ => cases heq
  · intro hall
    induction u with
    | nil => exact .starNil
    | cons c u ih =>
      have hc := (h [c]).mpr ⟨c, hall c List.mem_cons_self, rfl⟩
      exact .starCons hc (ih fun d hd => hall d (List.mem_cons_of_mem c hd))

theorem matches_run : Matches (.star notSlash) u ↔ '/' ∉ u := by
  rw [matches_star (p := fun c => c ≠ '/') fun _ => matches_notSlash]
  exact ⟨fun h hin => h '/' hin rfl, fun h c hc heq => h (heq ▸ hc)⟩

theorem matches_rest : Matches (.star .any) u ↔ '\n' ∉ u := by
  rw [matches_star (p := fun c => c ≠ '\n')]
  · exact ⟨fun h hin => h '\n' hin rfl, fun h c hc heq => h (heq ▸ hc)⟩
  · intro u
    constructor
    · rintro ⟨⟩
      exact ⟨_, ‹_›, rfl⟩
    · rintro ⟨c, hc, rfl⟩
      exact .any c hc

theorem matches_segments : Matches Piece.segments.regex u ↔
    ∃ passed : List (List Char), (∀ s ∈ passed, '/' ∉ s) ∧ u = passed.flatMap (· ++ ['/']) := by
  have hone (w : List Char) : Matches (.seq (.star notSlash) (.seq (.char '/') .empty)) w ↔
      ∃ s, '/' ∉ s ∧ w = s ++ ['/'] := by
    constructor
    · rintro ⟨⟩
      next hs hslash =>
      cases hslash with
      | seq hchar hempty =>
        cases hchar
        cases hempty
        exact ⟨_, matches_run.mp hs, rfl⟩
    · rintro ⟨s, hs, rfl⟩
      exact .seq (matches_run.mpr hs) (.seq (.char '/') .empty)
  constructor
  · intro h
    rw [Piece.regex] at h
    generalize heq : Regex.star _ = r at h
    induction h with
    | starNil => exact ⟨[], by simp, rfl⟩
    | starCons hu _ _ ih =>
      cases heq
      obtain ⟨s, hs, rfl⟩ := (hone _).mp hu
      obtain ⟨passed, hpassed, rfl⟩ := ih rfl
      refine ⟨s :: passed, ?_, rfl⟩
      intro s' hs'
      rcases List.mem_cons.mp hs' with rfl | hs'
      · exact hs
      · exact hpassed s' hs'
    | _ => cases heq
  · rintro ⟨passed, hpassed, rfl⟩
    induction passed with
    | nil => exact .starNil
    | cons s passed ih =>
      have hs := (hone (s ++ ['/'])).mpr ⟨s, hpassed s List.mem_cons_self, rfl⟩
      exact .starCons hs (ih fun s' hs' => hpassed s' (List.mem_cons_of_mem s hs'))

/-! ## The pieces of segments -/

def segmentPieces : List Char → List Piece
  | '*' :: '*' :: rest => .run :: segmentPieces rest
  | c :: rest =>
    (if c == '*' then .run else if c == '?' then .one else .char c) :: segmentPieces rest
  | [] => []

def pathPieces : List (List Char) → List Piece
  | [] => []
  | [p] => if p = manySegments then [.rest] else segmentPieces p
  | p :: ps =>
    if p = manySegments then .segments :: pathPieces ps
    else segmentPieces p ++ .char '/' :: pathPieces ps

/-- Neither classes nor alternatives. -/
def IsPlain (cs : List Char) : Prop := '[' ∉ cs ∧ '\x7b' ∉ cs

theorem IsPlain.of_append (h : IsPlain (u ++ v)) : IsPlain u ∧ IsPlain v := by
  simp only [IsPlain, List.mem_append, not_or] at h
  exact ⟨⟨h.1.1, h.2.1⟩, ⟨h.1.2, h.2.2⟩⟩

theorem piecesFrom_char (hbracket : c ≠ '[') (hbrace : c ≠ '\x7b') (atStart : Bool)
    (hstars : ∀ rest, c :: tail ≠ '*' :: '*' :: rest) :
    piecesFrom (fuel + 1) atStart 0 (c :: tail) =
      (if c == '*' then .run else if c == '?' then .one else .char c) ::
        piecesFrom fuel (c == '/') 0 tail := by
  rw [piecesFrom]
  · by_cases hstar : c = '*'
    · subst hstar; rfl
    · by_cases hone : c = '?'
      · subst hone; rfl
      · simp [hstar, hone, hbracket, hbrace]
  · rintro after rfl heq
    exact hstars after (by rw [heq])

theorem piecesFrom_stars {atStart : Bool} {depth : Nat}
    (h : atStart = true → tail ≠ [] ∧ ∀ rest, tail ≠ '/' :: rest) :
    piecesFrom (fuel + 1) atStart depth ('*' :: '*' :: tail) =
      .run :: piecesFrom fuel false depth tail := by
  rw [piecesFrom]
  · exact fun after hstart heq => (h hstart).2 after heq
  · exact fun hstart heq => (h hstart).1 heq

theorem piecesFrom_segment (hplain : IsPlain p) (hp : '/' ∉ p)
    (htail : tail = [] ∨ ∃ rest, tail = '/' :: rest) {atStart : Bool}
    (hstart : atStart = true → p ≠ manySegments) (hfuel : (p ++ tail).length < fuel) :
    ∃ k start, tail.length < k ∧
      piecesFrom fuel atStart 0 (p ++ tail) = segmentPieces p ++ piecesFrom k start 0 tail := by
  obtain ⟨fuel, rfl⟩ : ∃ k, fuel = k + 1 := ⟨fuel - 1, by omega⟩
  rw [List.length_append] at hfuel
  fun_induction segmentPieces p generalizing fuel atStart with
  | case1 rest ih =>
    obtain ⟨_, hrest⟩ := IsPlain.of_append (u := ['*', '*']) hplain
    simp only [List.mem_cons, not_or] at hp
    simp only [List.length_cons] at hfuel
    obtain ⟨fuel, rfl⟩ : ∃ k, fuel = k + 1 := ⟨fuel - 1, by omega⟩
    rw [List.cons_append, List.cons_append, piecesFrom_stars]
    · obtain ⟨k, start, hk, heq⟩ := ih hrest hp.2.2 (fun h : false = true => by cases h) fuel (by omega)
      exact ⟨k, start, hk, by rw [heq, List.cons_append]⟩
    · intro htrue
      cases rest with
      | nil => exact absurd rfl (hstart htrue)
      | cons c rest =>
        refine ⟨List.cons_ne_nil _ _, fun rest' heq => ?_⟩
        obtain rfl := (List.cons.inj heq).1
        exact hp.2.2 List.mem_cons_self
  | case2 c rest hstars ih =>
    obtain ⟨hc, hrest⟩ := IsPlain.of_append (u := [c]) hplain
    simp only [IsPlain, List.mem_singleton] at hc
    rw [List.mem_cons, not_or] at hp
    rw [List.length_cons] at hfuel
    obtain ⟨fuel, rfl⟩ : ∃ k, fuel = k + 1 := ⟨fuel - 1, by omega⟩
    have hstars' (rest' : List Char) : c :: (rest ++ tail) ≠ '*' :: '*' :: rest' := by
      intro heq
      obtain ⟨hc, heq⟩ := List.cons.inj heq
      cases rest with
      | nil => rcases htail with rfl | ⟨_, rfl⟩ <;> cases heq
      | cons d rest => exact hstars rest hc (by rw [(List.cons.inj heq).1])
    have hslash : (c == '/') = false := by simpa using Ne.symm hp.1
    obtain ⟨k, start, hk, heq⟩ := ih hrest hp.2 (fun h : false = true => by cases h) fuel (by omega)
    refine ⟨k, start, hk, ?_⟩
    rw [List.cons_append, piecesFrom_char (Ne.symm hc.1) (Ne.symm hc.2) atStart hstars', hslash, heq,
      List.cons_append]
  | case3 => exact ⟨_, _, by omega, rfl⟩

theorem piecesFrom_path (hplain : IsPlain cs) (hfuel : cs.length < fuel) :
    piecesFrom fuel true 0 cs = pathPieces (splitOnChar '/' cs) := by
  induction hn : cs.length using Nat.strong_induction_on generalizing cs fuel with | _ n ih
  subst hn
  obtain ⟨fuel, rfl⟩ : ∃ k, fuel = k + 1 := ⟨fuel - 1, by omega⟩
  rcases Text.split_cases '/' cs with hslash | ⟨p, rest, hslash, rfl⟩
  · rw [Text.splitOnChar_of_notMem hslash, pathPieces]
    split
    · next hmany =>
      subst hmany
      obtain ⟨fuel, rfl⟩ : ∃ k, fuel = k + 1 := ⟨fuel - 1, by simp [manySegments] at hfuel; omega⟩
      rfl
    · next hmany =>
      obtain ⟨k, start, hk, heq⟩ := piecesFrom_segment hplain hslash (.inl rfl) (fun _ => hmany)
        (by rwa [List.append_nil])
      obtain ⟨k, rfl⟩ : ∃ j, k = j + 1 := ⟨k - 1, by omega⟩
      rw [List.append_nil] at heq
      rw [heq, piecesFrom, List.replicate_zero, List.append_nil]
      exact fun h => by cases h
  · obtain ⟨hplain', hrest⟩ := IsPlain.of_append hplain
    obtain ⟨_, hrest⟩ := IsPlain.of_append (u := ['/']) hrest
    rw [Text.splitOnChar_append hslash]
    obtain ⟨q, qs, hqs⟩ := List.exists_cons_of_ne_nil (Text.splitOnChar_ne_nil '/' rest)
    have hshorter : rest.length < (p ++ '/' :: rest).length := by
      rw [List.length_append, List.length_cons]
      omega
    have hrest {k : Nat} (hk : rest.length < k) : piecesFrom k true 0 rest = pathPieces (q :: qs) := by
      rw [← hqs]
      exact ih _ hshorter hrest hk rfl
    rw [hqs, pathPieces]
    split
    · next hmany =>
      subst hmany
      have hlength : rest.length < fuel := by
        simp only [manySegments, List.length_append, List.length_cons] at hfuel
        omega
      rw [← hrest hlength]
      rfl
    · next hmany =>
      obtain ⟨k, start, hk, heq⟩ := piecesFrom_segment hplain' hslash (.inr ⟨rest, rfl⟩)
        (fun _ => hmany) hfuel
      obtain ⟨k, rfl⟩ : ∃ j, k = j + 1 := ⟨k - 1, by omega⟩
      rw [heq, piecesFrom_char (by decide) (by decide) start (fun _ h => by cases h),
        ← hrest (by simpa using hk)]
      rfl
    · exact fun h => by cases h

theorem segmentPieces_isSimple (p : List Char) : ∀ x ∈ segmentPieces p, x.isSimple = true := by
  fun_induction segmentPieces p with
  | case1 rest ih => exact fun x hx => (List.mem_cons.mp hx).elim (fun h => h ▸ rfl) (ih x)
  | case2 c rest _ ih =>
    intro x hx
    rcases List.mem_cons.mp hx with rfl | hx
    · split
      · rfl
      · split <;> rfl
    · exact ih x hx
  | case3 => exact fun x hx => by cases hx

theorem pathPieces_isSimple (ps : List (List Char)) : ∀ x ∈ pathPieces ps, x.isSimple = true := by
  fun_induction pathPieces ps with
  | case1 => exact fun x hx => by cases hx
  | case2 => exact fun x hx => by rw [List.mem_singleton.mp hx]; rfl
  | case3 p _ => exact segmentPieces_isSimple p
  | case4 ps _ ih => exact fun x hx => (List.mem_cons.mp hx).elim (fun h => h ▸ rfl) (ih x)
  | case5 p ps _ _ ih =>
    intro x hx
    rcases List.mem_append.mp hx with hx | hx
    · exact segmentPieces_isSimple p x hx
    · exact (List.mem_cons.mp hx).elim (fun h => h ▸ rfl) (ih x)

/-! ## What the segments stand for -/

abbrev piecesRegex (ps : List Piece) : Regex := Regex.sequence (ps.map Piece.regex)

theorem matches_pieces_cons {x : Piece} {w : List Char} : Matches (piecesRegex (x :: ps)) w ↔
    ∃ u v, w = u ++ v ∧ Matches x.regex u ∧ Matches (piecesRegex ps) v := matches_sequence_cons

theorem segmentFits_star {s : List Char} :
    SegmentFits ('*' :: p) s ↔ ∃ u t, s = u ++ t ∧ SegmentFits p t := by
  constructor
  · intro h
    cases h with
    | star u h => exact ⟨u, _, rfl, h⟩
    | char _ hstar => exact absurd rfl hstar
  · rintro ⟨u, t, rfl, h⟩
    exact .star u h

theorem segmentFits_one {s : List Char} :
    SegmentFits ('?' :: p) s ↔ ∃ c t, s = c :: t ∧ SegmentFits p t := by
  constructor
  · intro h
    cases h with
    | one c h => exact ⟨c, _, rfl, h⟩
    | char _ _ hone => exact absurd rfl hone
  · rintro ⟨c, t, rfl, h⟩
    exact .one c h

theorem segmentFits_char {s : List Char} (hstar : c ≠ '*') (hone : c ≠ '?') :
    SegmentFits (c :: p) s ↔ ∃ t, s = c :: t ∧ SegmentFits p t := by
  constructor
  · intro h
    cases h with
    | star => exact absurd rfl hstar
    | one => exact absurd rfl hone
    | char _ _ _ h => exact ⟨_, rfl, h⟩
  · rintro ⟨t, rfl, h⟩
    exact .char c hstar hone h

/-- The words of pieces that begin with a part of one segment, where the segment fits and the rest is
a word of `ps`. -/
def Begins (p : List Char) (ps : List Piece) (w : List Char) : Prop :=
  ∃ s v, w = s ++ v ∧ SegmentFits p s ∧ '/' ∉ s ∧ Matches (piecesRegex ps) v

/-- One piece takes what the characters stand for that it is made of, and the segment goes on behind. -/
theorem begins_piece {x : Piece} {qs : List Piece} (takes : List Char → Prop) {w : List Char}
    (hpiece : ∀ u, Matches x.regex u ↔ takes u ∧ '/' ∉ u)
    (hfits : ∀ s, SegmentFits p s ↔ ∃ u t, s = u ++ t ∧ takes u ∧ SegmentFits tail t)
    (hrest : ∀ v, Matches (piecesRegex qs) v ↔ Begins tail ps v) :
    Matches (piecesRegex (x :: qs)) w ↔ Begins p ps w := by
  rw [matches_pieces_cons]
  constructor
  · rintro ⟨u, _, rfl, hu, hv⟩
    obtain ⟨s, v, rfl, hs, hslash, hv⟩ := (hrest _).mp hv
    obtain ⟨htakes, hout⟩ := (hpiece u).mp hu
    refine ⟨u ++ s, v, by rw [List.append_assoc], (hfits _).mpr ⟨u, s, rfl, htakes, hs⟩, ?_, hv⟩
    simp [hout, hslash]
  · rintro ⟨s, v, rfl, hs, hslash, hv⟩
    obtain ⟨u, t, rfl, htakes, ht⟩ := (hfits s).mp hs
    rw [List.mem_append, not_or] at hslash
    exact ⟨u, t ++ v, by rw [List.append_assoc], (hpiece u).mpr ⟨htakes, hslash.1⟩,
      (hrest _).mpr ⟨t, v, rfl, ht, hslash.2, hv⟩⟩

theorem matches_char : Matches (.char c) u ↔ u = [c] := by
  constructor
  · rintro ⟨⟩
    rfl
  · rintro rfl
    exact .char c

theorem matches_segmentPieces {w : List Char} (hp : '/' ∉ p) :
    Matches (piecesRegex (segmentPieces p ++ ps)) w ↔ Begins p ps w := by
  fun_induction segmentPieces p generalizing w with
  | case1 rest ih =>
    simp only [List.mem_cons, not_or] at hp
    -- Both stars are one piece: what they take together, the first could have taken.
    refine begins_piece (fun _ => True) (fun u => by simp [Piece.regex, matches_run])
      (fun s => ?_) fun v => ih hp.2.2
    simp only [segmentFits_star, true_and]
    constructor
    · rintro ⟨u, _, rfl, u', t, rfl, ht⟩
      exact ⟨u ++ u', t, by rw [List.append_assoc], ht⟩
    · rintro ⟨u, t, rfl, ht⟩
      exact ⟨u, t, rfl, [], t, rfl, ht⟩
  | case2 c rest _ ih =>
    rw [List.mem_cons, not_or] at hp
    rw [List.cons_append]
    by_cases hstar : c = '*'
    · subst hstar
      exact begins_piece (fun _ => True) (fun u => by simp [Piece.regex, matches_run])
        (fun s => by simp only [segmentFits_star, true_and]) fun v => ih hp.2
    rw [if_neg (by simpa using hstar)]
    by_cases hone : c = '?'
    · subst hone
      refine begins_piece (fun u => ∃ c, u = [c]) (fun u => ?_) (fun s => ?_) fun v => ih hp.2
      · simp only [beq_self_eq_true, if_true, Piece.regex, matches_notSlash]
        constructor
        · rintro ⟨c, hc, rfl⟩
          exact ⟨⟨c, rfl⟩, by simpa using Ne.symm hc⟩
        · rintro ⟨⟨c, rfl⟩, hout⟩
          exact ⟨c, Ne.symm (by simpa using hout), rfl⟩
      · rw [segmentFits_one]
        constructor
        · rintro ⟨c, t, rfl, ht⟩
          exact ⟨[c], t, rfl, ⟨c, rfl⟩, ht⟩
        · rintro ⟨_, t, rfl, ⟨c, rfl⟩, ht⟩
          exact ⟨c, t, rfl, ht⟩
    · rw [if_neg (by simpa using hone)]
      refine begins_piece (fun u => u = [c]) (fun u => ?_) (fun s => ?_) fun v => ih hp.2
      · rw [Piece.regex, matches_char, iff_self_and]
        rintro rfl
        simpa using hp.1
      · rw [segmentFits_char hstar hone]
        constructor
        · rintro ⟨t, rfl, ht⟩
          exact ⟨[c], t, rfl, rfl, ht⟩
        · rintro ⟨_, t, rfl, rfl, ht⟩
          exact ⟨t, rfl, ht⟩
  | case3 =>
    constructor
    · exact fun h => ⟨[], w, rfl, .nil, List.not_mem_nil, h⟩
    · rintro ⟨_, v, rfl, ⟨⟩, _, hv⟩
      exact hv

theorem PathFits.ne_nil {ps ss : List (List Char)} (h : PathFits ps ss) (hps : ps ≠ []) : ss ≠ [] := by
  induction h with
  | nil => exact absurd rfl hps
  | all h => exact h
  | several passed _ ih => exact List.append_ne_nil_of_right_ne_nil _ (ih (List.cons_ne_nil _ _))
  | segment => exact List.cons_ne_nil _ _

theorem pathFits_several {ps ss : List (List Char)} (hps : ps ≠ []) :
    PathFits (manySegments :: ps) ss ↔ ∃ passed rest, ss = passed ++ rest ∧ PathFits ps rest := by
  constructor
  · intro h
    cases h with
    | all => exact absurd rfl hps
    | several passed h => exact ⟨passed, _, rfl, h⟩
    | segment hp => exact absurd rfl hp
  · rintro ⟨passed, rest, rfl, h⟩
    obtain ⟨p, ps, rfl⟩ := List.exists_cons_of_ne_nil hps
    exact .several passed h

theorem pathFits_segment {ps ss : List (List Char)} (hp : p ≠ manySegments) :
    PathFits (p :: ps) ss ↔ ∃ s rest, ss = s :: rest ∧ SegmentFits p s ∧ PathFits ps rest := by
  constructor
  · intro h
    cases h with
    | segment _ hs h => exact ⟨_, _, rfl, hs, h⟩
    | _ => exact absurd rfl hp
  · rintro ⟨s, rest, rfl, hs, h⟩
    exact .segment hp hs h

/-- The pieces of a glob have the words whose segments fit. -/
theorem matches_pathPieces {ps : List (List Char)} (hne : ps ≠ []) (hps : ∀ p ∈ ps, '/' ∉ p)
    (hline : '\n' ∉ cs) :
    Matches (piecesRegex (pathPieces ps)) cs ↔ PathFits ps (splitOnChar '/' cs) := by
  fun_induction pathPieces ps generalizing cs with
  | case1 => exact absurd rfl hne
  | case2 =>
    rw [matches_pieces_cons]
    simp only [Piece.regex, matches_rest]
    constructor
    · exact fun _ => .all (Text.splitOnChar_ne_nil _ _)
    · exact fun _ => ⟨cs, [], by simp, hline, .empty⟩
  | case3 p hp =>
    rw [← List.append_nil (segmentPieces p), matches_segmentPieces (hps p List.mem_cons_self),
      pathFits_segment hp]
    constructor
    · rintro ⟨s, _, rfl, hs, hout, ⟨⟩⟩
      rw [List.append_nil, Text.splitOnChar_of_notMem hout]
      exact ⟨s, [], rfl, hs, .nil⟩
    · rintro ⟨s, _, hsplit, hs, ⟨⟩⟩
      obtain ⟨rfl, hout⟩ := Text.splitOnChar_eq_singleton.mp hsplit
      exact ⟨cs, [], by simp, hs, hout, .empty⟩
  | case4 ps hps' ih =>
    have hne' : ps ≠ [] := fun h => hps' (by rw [h])
    have ih {v : List Char} (hv : '\n' ∉ v) :=
      ih hne' (fun p hp => hps p (List.mem_cons_of_mem _ hp)) hv
    rw [matches_pieces_cons, pathFits_several hne']
    simp only [matches_segments]
    constructor
    · rintro ⟨_, v, rfl, ⟨passed, hpassed, rfl⟩, hv⟩
      rw [List.mem_append, not_or] at hline
      exact ⟨passed, _, Text.splitOnChar_flatMap hpassed v, (ih hline.2).mp hv⟩
    · rintro ⟨passed, ss, hsplit, hfits⟩
      obtain ⟨v, hpassed, rfl, rfl⟩ := Text.splitOnChar_eq_append hsplit (hfits.ne_nil hne')
      rw [List.mem_append, not_or] at hline
      exact ⟨_, v, rfl, ⟨passed, hpassed, rfl⟩, (ih hline.2).mpr hfits⟩
  | case5 p ps hps' hp ih =>
    have hne' : ps ≠ [] := fun h => hps' (by rw [h])
    have ih {v : List Char} (hv : '\n' ∉ v) :=
      ih hne' (fun p hp => hps p (List.mem_cons_of_mem _ hp)) hv
    rw [matches_segmentPieces (hps p List.mem_cons_self), pathFits_segment hp]
    constructor
    · rintro ⟨s, _, rfl, hs, hslash, hrest⟩
      obtain ⟨_, v, rfl, ⟨⟩, hv⟩ := matches_pieces_cons.mp hrest
      simp only [List.mem_append, List.mem_singleton, not_or] at hline
      exact ⟨s, _, Text.splitOnChar_append hslash, hs, (ih hline.2.2).mp hv⟩
    · rintro ⟨s, ss, hsplit, hs, hfits⟩
      rw [← List.singleton_append] at hsplit
      obtain ⟨v, hpassed, rfl, rfl⟩ := Text.splitOnChar_eq_append hsplit (hfits.ne_nil hne')
      simp only [List.flatMap_cons, List.flatMap_nil, List.append_nil, List.append_assoc, List.mem_append,
        not_or] at hline ⊢
      exact ⟨s, _, rfl, hs, hpassed s List.mem_cons_self,
        matches_pieces_cons.mpr ⟨['/'], v, rfl, .char '/', (ih hline.2.2).mpr hfits⟩⟩

/-! ## Globs and paths -/

/-- The segments of a path or a glob, with forward slashes and without `./` in front. -/
def segments (s : String) : List (List Char) := splitOnChar '/' (normalizeChars s.toList)

theorem mem_dropDotSlash {cs : List Char} (h : c ∈ dropDotSlash cs) : c ∈ cs := by
  fun_induction dropDotSlash cs with
  | case1 rest ih => exact List.mem_cons_of_mem _ (List.mem_cons_of_mem _ (ih h))
  | case2 => exact h

theorem mem_normalizeChars {cs : List Char} (h : c ∈ normalizeChars cs) : c = '/' ∨ c ∈ cs := by
  obtain ⟨d, hd, rfl⟩ := List.mem_map.mp (mem_dropDotSlash h)
  split
  · exact .inl rfl
  · exact .inr hd

theorem backslash_normalizeChars (cs : List Char) : '\\' ∉ normalizeChars cs := by
  intro h
  obtain ⟨c, _, hc⟩ := List.mem_map.mp (mem_dropDotSlash h)
  split at hc
  · cases hc
  · next hne => exact hne (by rw [hc]; rfl)

theorem dropDotSlash_of_ne (h : ∀ rest, cs ≠ '.' :: '/' :: rest) : dropDotSlash cs = cs := by
  rw [dropDotSlash]
  exact h

theorem normalizeChars_of_ne (hslash : '\\' ∉ cs) (h : ∀ rest, cs ≠ '.' :: '/' :: rest) :
    normalizeChars cs = cs := by
  have hmap : (cs.map fun c => if c == '\\' then '/' else c) = cs := by
    refine (List.map_congr_left fun c hc => if_neg ?_).trans (List.map_id cs)
    rintro heq
    exact hslash (beq_iff_eq.mp heq ▸ hc)
  rw [normalizeChars, hmap, dropDotSlash_of_ne h]

theorem dropDotSlash_ne (cs rest : List Char) : dropDotSlash cs ≠ '.' :: '/' :: rest := by
  fun_induction dropDotSlash cs with
  | case1 cs ih => exact ih
  | case2 cs h => exact h rest

theorem normalizeChars_normalizeChars (cs : List Char) :
    normalizeChars (normalizeChars cs) = normalizeChars cs :=
  normalizeChars_of_ne (backslash_normalizeChars cs) (dropDotSlash_ne _)

theorem matchGlob_normalizePath (path glob : String) : matchGlob (normalizePath path) glob = matchGlob path glob := by
  unfold matchGlob normalizePath
  rw [String.toList_ofList, normalizeChars_normalizeChars]

/-- A path matches a glob without classes and alternatives just if its segments fit those of the
glob. -/
theorem matchGlob_iff_pathFits (path pattern : String)
    (hplain : '[' ∉ pattern.toList ∧ '\x7b' ∉ pattern.toList) (hline : '\n' ∉ path.toList) :
    ∃ b, matchGlob path pattern = .ok b ∧ (b = true ↔ PathFits (segments pattern) (segments path)) := by
  have hplain' : IsPlain (normalizeChars pattern.toList) :=
    ⟨fun h => (mem_normalizeChars h).elim (by decide) hplain.1,
      fun h => (mem_normalizeChars h).elim (by decide) hplain.2⟩
  have hline' : '\n' ∉ normalizeChars path.toList :=
    fun h => (mem_normalizeChars h).elim (by decide) hline
  have hpieces : pieces (normalizeChars pattern.toList) = pathPieces (segments pattern) :=
    piecesFrom_path hplain' (Nat.lt_succ_self _)
  refine ⟨(piecesRegex (pathPieces (segments pattern))).accepts (normalizeChars path.toList), ?_, ?_⟩
  · rw [matchGlob, compileGlob, hpieces, ofText_pieces (pathPieces_isSimple _)]
    rfl
  · rw [Regex.accepts_iff]
    exact matches_pathPieces (Text.splitOnChar_ne_nil _ _) (Text.notMem_splitOnChar _ _) hline'

/-- `**` stands for two folders here, and the star for part of a name. -/
theorem matchGlob_iff_pathFits_nested :
    ('[' ∉ "./src/**/*_test?.ts".toList ∧ '\x7b' ∉ "./src/**/*_test?.ts".toList) ∧
      '\n' ∉ "src/a/b/run_test1.ts".toList ∧
      matchGlob "src/a/b/run_test1.ts" "./src/**/*_test?.ts" = .ok true ∧
      PathFits (segments "./src/**/*_test?.ts") (segments "src/a/b/run_test1.ts") := by
  have hplain : '[' ∉ "./src/**/*_test?.ts".toList ∧ '\x7b' ∉ "./src/**/*_test?.ts".toList := by decide
  have hline : '\n' ∉ "src/a/b/run_test1.ts".toList := by decide
  have hmatch : matchGlob "src/a/b/run_test1.ts" "./src/**/*_test?.ts" = .ok true := by decide +kernel
  obtain ⟨b, hb, hiff⟩ := matchGlob_iff_pathFits "src/a/b/run_test1.ts" "./src/**/*_test?.ts" hplain hline
  rw [hmatch, Except.ok.injEq] at hb
  exact ⟨hplain, hline, hmatch, hiff.mp hb.symm⟩

end JudgedLint.Pattern
