import JudgedLint.Proofs.Pattern.Segments

/-! Globs with groups and classes as expressions. The translation closes every group that is left
open and takes a brace or a comma outside of groups for itself, so whatever the glob is, its pieces
are well nested; what can still keep the expression from being read is the body of a class, which is
copied as it stands. -/
namespace JudgedLint.Pattern

open Regex (Matches)

variable {c : Char} {body cs rest tail : List Char} {ps qs : List Piece} {r s : Regex} {fuel : Nat}

abbrev piecesText (ps : List Piece) : List Char := ps.flatMap Piece.regexText

/-! ## Classes -/

/-- No range of the body runs backwards. -/
def RangesInOrder (body : List Char) : Prop := ∀ range ∈ classMembers body, range.1 ≤ range.2

instance (body : List Char) : Decidable (RangesInOrder body) :=
  inferInstanceAs (Decidable (∀ range ∈ classMembers body, range.1 ≤ range.2))

theorem rangesInOrder_range (low high : Char) (rest : List Char) :
    RangesInOrder (low :: '-' :: high :: rest) ↔ low ≤ high ∧ RangesInOrder rest := by
  simp [RangesInOrder, classMembers]

theorem classMembers_single (h : ∀ high rest', rest ≠ '-' :: high :: rest') :
    classMembers (c :: rest) = (c, c) :: classMembers rest := by
  rw [classMembers]
  exact h

theorem rangesInOrder_single (h : ∀ high rest', rest ≠ '-' :: high :: rest') :
    RangesInOrder (c :: rest) ↔ RangesInOrder rest := by
  simp [RangesInOrder, classMembers_single h]

/-- What the translation copies into a class: it holds neither the bracket that would end the class
nor a backslash, and a caret in front of it stands for negation alone. -/
structure IsClass (negated : Bool) (body : List Char) : Prop where
  unclosed : ']' ∉ body
  verbatim : '\\' ∉ body
  caret : negated = false → ∀ rest, body ≠ '^' :: rest

theorem classChar_of_ne (hc : c ≠ '\\') (rest : List Char) : classChar c rest = .ok (c, rest) := by
  unfold classChar
  rw [if_neg (by simpa using hc)]

theorem classRanges_single {first : Bool} (hc : (c == ']' && !first) = false) (hslash : c ≠ '\\')
    (hsingle : ∀ d rest', rest ≠ '-' :: d :: rest') (hend : rest ≠ ['-']) :
    classRanges (fuel + 1) first (c :: rest) = do
      let (ranges, behind) ← classRanges fuel false rest
      return ((c, c) :: ranges, behind) := by
  rw [classRanges, hc, classChar_of_ne hslash]
  simp only [Bool.false_eq_true, if_false, bind, Except.bind]
  split
  · exact absurd rfl hend
  · exact absurd rfl (hsingle _ _)
  · exact absurd rfl (hsingle _ _)
  · rfl

theorem classRanges_range {first : Bool} {low high : Char} (hlow : (low == ']' && !first) = false)
    (hslash : low ≠ '\\') (hclose : high ≠ ']') (hslash' : high ≠ '\\') :
    classRanges (fuel + 1) first (low :: '-' :: high :: rest) =
      if high < low then .error .badRange
      else do
        let (ranges, behind) ← classRanges fuel false rest
        return ((low, high) :: ranges, behind) := by
  rw [classRanges, hlow, classChar_of_ne hslash]
  simp only [Bool.false_eq_true, if_false, bind, Except.bind, classChar_of_ne hslash']
  rfl

theorem classRanges_hyphen {first : Bool} (hc : (c == ']' && !first) = false) (hslash : c ≠ '\\') :
    classRanges (fuel + 1) first (c :: '-' :: ']' :: rest) = .ok ([(c, c), ('-', '-')], rest) := by
  rw [classRanges, hc, classChar_of_ne hslash]
  rfl

/-- A character that starts no range starts none with the closing bracket behind the body either. -/
theorem append_ne_range {rest : List Char} (hhyphen : rest ≠ ['-'])
    (hsingle : ∀ high rest', rest = '-' :: high :: rest' → False) :
    (∀ d rest', rest ++ ']' :: tail ≠ '-' :: d :: rest') ∧ rest ++ ']' :: tail ≠ ['-'] := by
  match rest with
  | [] =>
    refine ⟨fun d rest' heq => ?_, fun heq => ?_⟩
    · cases heq
    · cases heq
  | [e] =>
    refine ⟨fun d rest' heq => hhyphen ?_, fun heq => ?_⟩
    · rw [(List.cons.inj heq).1]
    · cases heq
  | e :: high :: rest =>
    refine ⟨fun d rest' heq => hsingle high rest ?_, fun heq => ?_⟩
    · rw [(List.cons.inj heq).1]
    · cases heq


/-- The body of a class is read as its members, unless a range runs backwards. -/
theorem classRanges_body {first : Bool} (hclose : ']' ∉ body) (hslash : '\\' ∉ body)
    (hfirst : first = true → body ≠ []) (hfuel : body.length < fuel) :
    classRanges fuel first (body ++ ']' :: tail) =
      if RangesInOrder body then .ok (classMembers body, tail) else .error .badRange := by
  fun_induction classMembers body generalizing fuel first with
  | case1 low high rest ih =>
    obtain ⟨fuel, rfl⟩ : ∃ k, fuel = k + 1 := ⟨fuel - 1, by omega⟩
    simp only [List.mem_cons, not_or] at hclose hslash
    simp only [List.length_cons] at hfuel
    have hlow : (low == ']' && !first) = false := by simp [Ne.symm hclose.1]
    have hrest := ih hclose.2.2.2 hslash.2.2.2 (fun h : false = true => by cases h)
      (show rest.length < fuel by omega)
    rw [List.cons_append, List.cons_append, List.cons_append,
      classRanges_range hlow (Ne.symm hslash.1) (Ne.symm hclose.2.2.1) (Ne.symm hslash.2.2.1), hrest]
    by_cases hlt : high < low
    · rw [if_pos hlt, if_neg]
      intro hordered
      exact absurd ((rangesInOrder_range low high rest).mp hordered).1 (Char.not_le.mpr hlt)
    · rw [if_neg hlt]
      have hle := Char.not_lt.mp hlt
      by_cases hordered : RangesInOrder rest
      · rw [if_pos hordered, if_pos ((rangesInOrder_range low high rest).mpr ⟨hle, hordered⟩)]
        rfl
      · rw [if_neg hordered, if_neg fun h => hordered ((rangesInOrder_range low high rest).mp h).2]
        rfl
  | case2 c rest hsingle ih =>
    obtain ⟨fuel, rfl⟩ : ∃ k, fuel = k + 1 := ⟨fuel - 1, by omega⟩
    simp only [List.mem_cons, not_or] at hclose hslash
    simp only [List.length_cons] at hfuel
    have hc : (c == ']' && !first) = false := by simp [Ne.symm hclose.1]
    -- A hyphen at the end of the body stands before the bracket and makes no range with it.
    by_cases hhyphen : rest = ['-']
    · subst hhyphen
      have hordered : RangesInOrder [c, '-'] := by simp [RangesInOrder, classMembers]
      rw [if_pos hordered]
      exact classRanges_hyphen hc (Ne.symm hslash.1)
    · have hrest := ih hclose.2 hslash.2 (fun h : false = true => by cases h)
        (show rest.length < fuel by omega)
      obtain ⟨hsingle', hend⟩ := append_ne_range hhyphen hsingle
      rw [List.cons_append, classRanges_single hc (Ne.symm hslash.1) hsingle' hend, hrest]
      by_cases hordered : RangesInOrder rest
      · rw [if_pos hordered, if_pos ((rangesInOrder_single hsingle).mpr hordered)]
        rfl
      · rw [if_neg hordered, if_neg fun h => hordered ((rangesInOrder_single hsingle).mp h)]
        rfl
  | case3 =>
    obtain ⟨fuel, rfl⟩ : ∃ k, fuel = k + 1 := ⟨fuel - 1, by omega⟩
    have hno : first = false := Bool.eq_false_iff.mpr fun h => hfirst h rfl
    have hempty : RangesInOrder [] := by decide
    rw [hno, if_pos hempty, List.nil_append, classRanges]
    rfl

theorem regexText_oneOf (negated : Bool) (body tail : List Char) :
    (Piece.oneOf negated body).regexText ++ tail =
      '[' :: ((if negated then ['^'] else []) ++ (body ++ ']' :: tail)) := by
  change ('[' :: (if negated then ['^'] else []) ++ body ++ [']']) ++ tail = _
  simp only [List.cons_append, List.append_assoc, List.nil_append]

theorem classText_caret (cs : List Char) :
    classText ('^' :: cs) =
      (classRanges (cs.length + 1) true cs).map fun read => (⟨true, read.1⟩, read.2) := by
  change (classRanges (cs.length + 1) true cs >>= fun read =>
    pure ((⟨true, read.1⟩, read.2) : CharClass × List Char)) = _
  cases classRanges (cs.length + 1) true cs <;> rfl

theorem classText_of_ne (h : ∀ rest, cs ≠ '^' :: rest) :
    classText cs = (classRanges (cs.length + 1) true cs).map fun read => (⟨false, read.1⟩, read.2) := by
  unfold classText
  split
  next negated read heq =>
    split at heq
    · exact absurd rfl (h _)
    · cases heq
      cases classRanges (cs.length + 1) true cs <;> rfl

theorem classText_body {negated : Bool} (hc : IsClass negated body) (hne : body ≠ []) :
    classText ((if negated then ['^'] else []) ++ (body ++ ']' :: tail)) =
      if RangesInOrder body then .ok (⟨negated, classMembers body⟩, tail) else .error .badRange := by
  have hread : classRanges ((body ++ ']' :: tail).length + 1) true (body ++ ']' :: tail) = _ :=
    classRanges_body hc.unclosed hc.verbatim (fun _ => hne) (by rw [List.length_append]; omega)
  cases negated with
  | true =>
    rw [if_pos rfl, List.singleton_append, classText_caret, hread]
    split <;> rfl
  | false =>
    have hcaret : ∀ rest, body ++ ']' :: tail ≠ '^' :: rest := by
      intro rest heq
      cases body with
      | nil => exact hne rfl
      | cons c body => exact hc.caret rfl body (by rw [(List.cons.inj heq).1])
    rw [if_neg Bool.false_ne_true, List.nil_append, classText_of_ne hcaret, hread]
    split <;> rfl

/-! ## Groups -/

inductive Piece.IsSingle : Piece → Prop where
  | simple {x : Piece} (h : x.isSimple = true) : x.IsSingle
  | oneOf {negated : Bool} {body : List Char} (hc : IsClass negated body) (hne : body ≠ []) :
    (Piece.oneOf negated body).IsSingle

def Piece.inOrder : Piece → Bool
  | .oneOf _ body => decide (RangesInOrder body)
  | _ => true

theorem inOrder_of_isSimple {x : Piece} (h : x.isSimple = true) : x.inOrder = true := by
  cases x with
  | oneOf => cases h
  | _ => rfl

def barred : List (List Piece) → List Piece
  | [] => []
  | [ps] => ps
  | ps :: pss => ps ++ .bar :: barred pss

theorem barred_cons_cons (ps qs : List Piece) (pss : List (List Piece)) :
    barred (ps :: qs :: pss) = ps ++ .bar :: barred (qs :: pss) := by
  rw [barred]
  exact fun h => by cases h

/-- Pieces that are read one after the other: single ones, and groups of alternatives. -/
inductive Reads : List Piece → Regex → Prop where
  | nil : Reads [] .empty
  | piece {x : Piece} {ps : List Piece} {s : Regex} (hx : x.IsSingle) (h : Reads ps s) :
    Reads (x :: ps) (.seq x.regex s)
  | group {branches : List (List Piece × Regex)} {ps : List Piece} {s : Regex} (hne : branches ≠ [])
    (hb : ∀ b ∈ branches, Reads b.1 b.2) (h : Reads ps s) :
    Reads (.opening :: (barred (branches.map Prod.fst) ++ .closing :: ps))
      (.seq (.choice (branches.map Prod.snd)) s)

/-- What ends expressions that stand one after the other. -/
def Stops (tail : List Char) : Prop := ∀ c rest, tail = c :: rest → c = '|' ∨ c = ')'

theorem stops_nil : Stops [] := fun _ _ heq => by cases heq

theorem stops_bar (rest : List Char) : Stops ('|' :: rest) := fun _ _ heq =>
  .inl (List.cons.inj heq).1.symm

theorem stops_closing (rest : List Char) : Stops (')' :: rest) := fun _ _ heq =>
  .inr (List.cons.inj heq).1.symm

theorem Stops.startsNoStar (h : Stops tail) : StartsNoStar tail := by
  intro rest heq
  rcases h _ _ heq with hc | hc <;> cases hc

theorem sequenceText_stops (h : Stops tail) : sequenceText (fuel + 1) tail = .ok (.empty, tail) := by
  cases tail with
  | nil => rfl
  | cons c rest =>
    have hc : (c == '|' || c == ')') = true := by
      rcases h c rest rfl with rfl | rfl <;> rfl
    rw [sequenceText, hc, if_pos rfl]

theorem sequenceText_error {e : RegexError} (hbar : c ≠ '|') (hclose : c ≠ ')')
    (hatom : atomText fuel c rest = .error e) : sequenceText (fuel + 1) (c :: rest) = .error e := by
  have hgo : (c == '|' || c == ')') = false := by simp [hbar, hclose]
  rw [sequenceText, hgo, hatom]
  rfl

theorem sequenceText_single {x : Piece} (hx : x.IsSingle) (hfuel : x.regexText.length ≤ fuel)
    (htail : StartsNoStar tail) :
    sequenceText (fuel + 1) (x.regexText ++ tail) =
      if x.inOrder then readBehind x.regex (sequenceText fuel tail) else .error .badRange := by
  cases hx with
  | simple h =>
    rw [inOrder_of_isSimple h, if_pos rfl]
    exact sequenceText_simple h hfuel htail
  | @oneOf negated body hc hne =>
    have hpos := length_regexText_pos (.oneOf negated body)
    obtain ⟨fuel, rfl⟩ : ∃ k, fuel = k + 1 := ⟨fuel - 1, by omega⟩
    have hatom : atomText (fuel + 1) '[' ((if negated then ['^'] else []) ++ (body ++ ']' :: tail)) =
        if RangesInOrder body then .ok ((Piece.oneOf negated body).regex, tail)
        else .error .badRange := by
      unfold atomText
      rw [if_pos (show ('[' == '[') = true from rfl), classText_body hc hne]
      split <;> rfl
    rw [regexText_oneOf, Piece.inOrder]
    by_cases hordered : RangesInOrder body
    · rw [if_pos hordered] at hatom
      rw [decide_eq_true hordered]
      exact sequenceText_cons (by decide) (by decide) hatom (starred_of_noStar htail)
    · rw [if_neg hordered] at hatom
      rw [decide_eq_false hordered]
      exact sequenceText_error (by decide) (by decide) hatom

def readAll (ps : List Piece) (r : Regex) (left : List Char) : Except RegexError (Regex × List Char) :=
  if ps.all Piece.inOrder then .ok (r, left) else .error .badRange

theorem readAll_of_all (h : ps.all Piece.inOrder = true) : readAll ps r cs = .ok (r, cs) := if_pos h

theorem readAll_of_not_all (h : ps.all Piece.inOrder = false) : readAll ps r cs = .error .badRange :=
  if_neg (by rw [h]; exact Bool.false_ne_true)

/-- The written form of the pieces is read as the expression, whatever ends it. -/
def IsRead (ps : List Piece) (r : Regex) : Prop :=
  ∀ fuel tail, Stops tail → (piecesText ps).length < fuel →
    sequenceText fuel (piecesText ps ++ tail) = readAll ps r tail

theorem piecesText_cons (x : Piece) (ps : List Piece) :
    piecesText (x :: ps) = x.regexText ++ piecesText ps := List.flatMap_cons

theorem piecesText_append (ps qs : List Piece) :
    piecesText (ps ++ qs) = piecesText ps ++ piecesText qs := List.flatMap_append

theorem piecesText_group (ps qs : List Piece) :
    piecesText (.opening :: (ps ++ .closing :: qs)) =
      '(' :: '?' :: ':' :: (piecesText ps ++ ')' :: piecesText qs) := by
  rw [piecesText_cons, regexText_opening, piecesText_append, piecesText_cons]
  rfl

theorem piecesText_barred_cons (ps qs : List Piece) (pss : List (List Piece)) :
    piecesText (barred (ps :: qs :: pss)) = piecesText ps ++ '|' :: piecesText (barred (qs :: pss)) := by
  rw [barred_cons_cons, piecesText_append, piecesText_cons]
  rfl

theorem all_barred_cons (ps qs : List Piece) (pss : List (List Piece)) :
    (barred (ps :: qs :: pss)).all Piece.inOrder =
      (ps.all Piece.inOrder && (barred (qs :: pss)).all Piece.inOrder) := by
  rw [barred_cons_cons, List.all_append, List.all_cons]
  rfl

theorem alternatives_barred {branches : List (List Piece × Regex)} (hne : branches ≠ [])
    (hread : ∀ b ∈ branches, IsRead b.1 b.2)
    (hfuel : (piecesText (barred (branches.map Prod.fst))).length + 1 < fuel) :
    alternatives fuel (piecesText (barred (branches.map Prod.fst)) ++ ')' :: tail) =
      readAll (barred (branches.map Prod.fst)) (.choice (branches.map Prod.snd)) (')' :: tail) := by
  induction branches generalizing fuel with
  | nil => exact absurd rfl hne
  | cons b branches ih =>
    obtain ⟨fuel, rfl⟩ : ∃ k, fuel = k + 1 := ⟨fuel - 1, by omega⟩
    have hb := hread b List.mem_cons_self fuel
    cases branches with
    | nil =>
      simp only [List.map_cons, List.map_nil, barred] at hfuel ⊢
      rw [alternatives, hb _ (stops_closing tail) (by omega)]
      cases hordered : b.1.all Piece.inOrder with
      | false =>
        rw [readAll_of_not_all hordered, readAll_of_not_all hordered]
        rfl
      | true =>
        rw [readAll_of_all hordered, readAll_of_all hordered]
        rfl
    | cons b' branches =>
      have hread' (d) (hd : d ∈ b' :: branches) : IsRead d.1 d.2 :=
        hread d (List.mem_cons_of_mem b hd)
      have hrest (hfuel) := @ih fuel (List.cons_ne_nil _ _) hread' hfuel
      simp only [List.map_cons, piecesText_barred_cons, List.length_append, List.length_cons,
        List.append_assoc, List.cons_append] at hfuel hrest ⊢
      rw [alternatives, hb _ (stops_bar _) (by omega), readAll, readAll, all_barred_cons]
      cases hordered : b.1.all Piece.inOrder with
      | false => rfl
      | true =>
        change (alternatives fuel _ >>= fun p => .ok (Regex.alt b.2 p.1, p.2)) = _
        rw [hrest (by omega), Bool.true_and]
        cases hothers : (barred (b'.1 :: branches.map Prod.fst)).all Piece.inOrder with
        | false =>
          rw [readAll_of_not_all hothers]
          rfl
        | true =>
          rw [readAll_of_all hothers]
          rfl

theorem readBehind_readAll (r s : Regex) :
    readBehind r (readAll ps s cs) = readAll ps (.seq r s) cs := by
  unfold readBehind readAll
  split <;> rfl

theorem Reads.isRead (h : Reads ps r) : IsRead ps r := by
  induction h with
  | nil =>
    intro fuel tail hstop hfuel
    obtain ⟨fuel, rfl⟩ : ∃ k, fuel = k + 1 := ⟨fuel - 1, by omega⟩
    exact sequenceText_stops hstop
  | @piece x ps s hx _ ih =>
    intro fuel tail hstop hfuel
    have hpos := length_regexText_pos x
    rw [piecesText_cons, List.length_append] at hfuel
    obtain ⟨fuel, rfl⟩ : ∃ k, fuel = k + 1 := ⟨fuel - 1, by omega⟩
    rw [piecesText_cons, List.append_assoc, sequenceText_single hx (by omega)
      (startsNoStar_pieces ps hstop.startsNoStar), ih fuel tail hstop (by omega), readBehind_readAll]
    unfold readAll
    rw [List.all_cons]
    cases x.inOrder <;> rfl
  | @group branches ps s hne _ _ ihb ih =>
    intro fuel tail hstop hfuel
    rw [piecesText_group] at hfuel ⊢
    simp only [List.length_cons, List.length_append] at hfuel
    -- One step each for the sequence, for the group and for its alternatives.
    obtain ⟨fuel, rfl⟩ : ∃ k, fuel = k + 3 := ⟨fuel - 3, by omega⟩
    simp only [List.cons_append, List.append_assoc]
    have hgroup : alternatives (fuel + 1) (piecesText (barred (branches.map Prod.fst)) ++
        ')' :: (piecesText ps ++ tail)) = _ := alternatives_barred hne ihb (by omega)
    have hall : (Piece.opening :: (barred (branches.map Prod.fst) ++ .closing :: ps)).all Piece.inOrder =
        ((barred (branches.map Prod.fst)).all Piece.inOrder && ps.all Piece.inOrder) := by
      rw [List.all_cons, List.all_append, List.all_cons]
      rfl
    rw [readAll, hall]
    cases hordered : (barred (branches.map Prod.fst)).all Piece.inOrder with
    | false =>
      rw [readAll_of_not_all hordered] at hgroup
      refine sequenceText_error (by decide) (by decide) ?_
      rw [atomText]
      simp only [List.drop, hgroup]
      rfl
    | true =>
      rw [readAll_of_all hordered] at hgroup
      have hatom : atomText (fuel + 2) '(' ('?' :: ':' :: (piecesText (barred (branches.map Prod.fst)) ++
          ')' :: (piecesText ps ++ tail))) =
            .ok (.choice (branches.map Prod.snd), piecesText ps ++ tail) := by
        rw [atomText]
        simp only [List.drop, hgroup]
        rfl
      have hnoStar := startsNoStar_pieces ps hstop.startsNoStar
      rw [sequenceText_cons (by decide) (by decide) hatom (starred_of_noStar hnoStar),
        ih (fuel + 2) tail hstop (by omega), readBehind_readAll]
      rfl

/-- The written form of pieces is an expression just if no range runs backwards. -/
theorem Reads.ofText (h : Reads ps r) :
    Regex.ofText (piecesText ps) = if ps.all Piece.inOrder then .ok r else .error .badRange := by
  have hread := h.isRead (3 * (piecesText ps).length + 2) [] stops_nil (by omega)
  rw [List.append_nil] at hread
  rw [Regex.ofText, alternatives, hread, readAll]
  split <;> rfl

/-! ## Nesting -/

/-- Pieces behind so many opened groups: each group ends with alternatives of its own. -/
inductive Nested : Nat → List Piece → Prop where
  | outside {ps : List Piece} {r : Regex} (h : Reads ps r) : Nested 0 ps
  | inside {depth : Nat} {branches : List (List Piece × Regex)} {ps : List Piece} (hne : branches ≠ [])
    (hb : ∀ b ∈ branches, Reads b.1 b.2) (h : Nested depth ps) :
    Nested (depth + 1) (barred (branches.map Prod.fst) ++ .closing :: ps)

theorem Nested.reads (h : Nested 0 ps) : ∃ r, Reads ps r := by
  cases h with
  | outside h => exact ⟨_, h⟩

theorem barred_append_cons (pre ps : List Piece) (pss : List (List Piece)) :
    barred ((pre ++ ps) :: pss) = pre ++ barred (ps :: pss) := by
  cases pss with
  | nil => rfl
  | cons qs pss => rw [barred_cons_cons, barred_cons_cons, List.append_assoc]

variable {depth : Nat}

theorem Nested.prepend (pre : List Piece) (hpre : ∀ ps s, Reads ps s → ∃ t, Reads (pre ++ ps) t)
    (h : Nested depth ps) : Nested depth (pre ++ ps) := by
  cases h with
  | outside h =>
    obtain ⟨t, ht⟩ := hpre _ _ h
    exact .outside ht
  | @inside depth branches ps hne hb h =>
    obtain ⟨b, branches, rfl⟩ := List.exists_cons_of_ne_nil hne
    obtain ⟨t, ht⟩ := hpre _ _ (hb b List.mem_cons_self)
    have hb' : ∀ d ∈ (pre ++ b.1, t) :: branches, Reads d.1 d.2 := by
      intro d hd
      rcases List.mem_cons.mp hd with rfl | hd
      · exact ht
      · exact hb d (List.mem_cons_of_mem b hd)
    have hnested := Nested.inside (List.cons_ne_nil _ _) hb' h
    rwa [List.map_cons, barred_append_cons, List.append_assoc] at hnested

theorem Nested.single {x : Piece} (hx : x.IsSingle) (h : Nested depth ps) : Nested depth (x :: ps) :=
  h.prepend [x] fun _ _ hs => ⟨_, .piece hx hs⟩

theorem Nested.opening (h : Nested (depth + 1) ps) : Nested depth (.opening :: ps) := by
  cases h with
  | @inside _ branches ps hne hb h =>
    have hnested : Nested depth ((.opening :: (barred (branches.map Prod.fst) ++ [.closing])) ++ ps) :=
      h.prepend _ fun qs s hs => by
        rw [List.cons_append, List.append_assoc]
        exact ⟨_, .group hne hb hs⟩
    rwa [List.cons_append, List.append_assoc] at hnested

/-- The group that ends here has an empty alternative at its end. -/
theorem Nested.closing (h : Nested depth ps) : Nested (depth + 1) (.closing :: ps) := by
  have hb : ∀ b ∈ [(([] : List Piece), Regex.empty)], Reads b.1 b.2 := by
    intro b hb
    rw [List.mem_singleton.mp hb]
    exact .nil
  exact .inside (List.cons_ne_nil _ _) hb h

theorem Nested.bar (h : Nested (depth + 1) ps) : Nested (depth + 1) (.bar :: ps) := by
  cases h with
  | @inside _ branches ps hne hb h =>
    have hb' : ∀ b ∈ (([] : List Piece), Regex.empty) :: branches, Reads b.1 b.2 := by
      intro b hmem
      rcases List.mem_cons.mp hmem with rfl | hmem
      · exact .nil
      · exact hb b hmem
    have hnested := Nested.inside (List.cons_ne_nil _ _) hb' h
    obtain ⟨b, branches, rfl⟩ := List.exists_cons_of_ne_nil hne
    exact hnested

theorem Nested.replicate (depth : Nat) : Nested depth (List.replicate depth .closing) := by
  induction depth with
  | zero => exact .outside .nil
  | succ depth ih => exact ih.closing

/-! ## The pieces of a glob -/

theorem classBody?_eq_some {negated : Bool} (h : classBody? cs = some (negated, body, rest)) :
    ']' ∉ body ∧ (negated = false → ∀ rest', body ≠ '^' :: rest') ∧ body <:+: cs ∧ rest <:+ cs := by
  unfold classBody? at h
  extract_lets sign inner at h
  have hinner : inner <:+ cs := by
    unfold inner
    split
    · exact List.drop_suffix 1 cs
    · exact List.suffix_rfl
  rw [List.span_eq_takeWhile_dropWhile] at h
  have hwhole : inner.takeWhile (· != ']') ++ inner.dropWhile (· != ']') = inner :=
    List.takeWhile_append_dropWhile
  cases hrest : inner.dropWhile (· != ']') with
  | nil =>
    rw [hrest] at h
    cases h
  | cons d after =>
    rw [hrest] at h hwhole
    obtain ⟨hsign, rfl, rfl⟩ : sign = negated ∧ inner.takeWhile (· != ']') = body ∧ after = rest := by
      simpa using h
    refine ⟨?_, ?_, ?_, ?_⟩
    · intro hin
      have hall : (inner.takeWhile (· != ']')).all (· != ']') = true := List.all_takeWhile
      exact absurd (List.all_eq_true.mp hall ']' hin) (by decide)
    · rintro rfl rest' heq
      rw [show inner = cs from if_neg (by rw [hsign]; exact Bool.false_ne_true)] at heq hwhole
      rw [heq] at hwhole
      subst hwhole
      have htrue : true = false := hsign
      cases htrue
    · exact (List.takeWhile_prefix _).isInfix.trans hinner.isInfix
    · exact (List.suffix_cons d after).trans ((hrest ▸ List.dropWhile_suffix _).trans hinner)

/-- The piece that starts with a character of a glob, and how many groups are open before it and
behind it. -/
inductive Taken (c : Char) (cs : List Char) : Nat → Piece → Nat → Prop where
  | simple {depth : Nat} {x : Piece} (hx : x.isSimple = true) : Taken c cs depth x depth
  | oneOf {depth : Nat} {negated : Bool} {body : List Char} (hc : c = '[') (hclose : ']' ∉ body)
    (hcaret : negated = false → ∀ rest, body ≠ '^' :: rest) (hin : body <:+: cs) :
    Taken c cs depth (.oneOf negated body) depth
  | opening {depth : Nat} : Taken c cs depth .opening (depth + 1)
  | bar {depth : Nat} : Taken c cs (depth + 1) .bar (depth + 1)
  | closing {depth : Nat} : Taken c cs (depth + 1) .closing depth

theorem piecesFrom_cons (atStart : Bool) (depth : Nat) (c : Char) (cs : List Char) :
    ∃ x start' depth' rest, Taken c cs depth x depth' ∧ rest <:+ cs ∧
      ∀ fuel, piecesFrom (fuel + 1) atStart depth (c :: cs) = x :: piecesFrom fuel start' depth' rest := by
  by_cases hstars : c = '*' ∧ ∃ after, cs = '*' :: after
  · obtain ⟨rfl, after, rfl⟩ := hstars
    by_cases hslash : atStart = true ∧ ∃ rest, after = '/' :: rest
    · obtain ⟨rfl, rest, rfl⟩ := hslash
      exact ⟨.segments, true, depth, rest, .simple rfl, ⟨['*', '/'], rfl⟩, fun fuel => rfl⟩
    by_cases hend : atStart = true ∧ after = []
    · obtain ⟨rfl, rfl⟩ := hend
      exact ⟨.rest, false, depth, [], .simple rfl, List.nil_suffix, fun fuel => rfl⟩
    refine ⟨.run, false, depth, after, .simple rfl, List.suffix_cons _ _, fun fuel => ?_⟩
    exact piecesFrom_stars fun h =>
      ⟨fun heq => hend ⟨h, heq⟩, fun rest heq => hslash ⟨h, rest, heq⟩⟩
  -- From here on no second star follows, and the character alone decides.
  have hchar (fuel : Nat) : piecesFrom (fuel + 1) atStart depth (c :: cs) = _ :=
    piecesFrom.eq_6 atStart depth fuel c cs fun after hc hcs => hstars ⟨hc, after, hcs⟩
  by_cases hrun : c = '*'
  · exact ⟨.run, false, depth, cs, .simple rfl, List.suffix_rfl, fun fuel => (hchar fuel).trans (by simp [hrun])⟩
  by_cases hone : c = '?'
  · exact ⟨.one, false, depth, cs, .simple rfl, List.suffix_rfl, fun fuel => (hchar fuel).trans (by simp [hone])⟩
  by_cases hclass : c = '['
  · cases hbody : classBody? cs with
    | none =>
      exact ⟨.char c, false, depth, cs, .simple rfl, List.suffix_rfl,
        fun fuel => (hchar fuel).trans (by simp [hclass, hbody])⟩
    | some found =>
      obtain ⟨negated, body, after⟩ := found
      obtain ⟨hclose, hcaret, hin, hafter⟩ := classBody?_eq_some hbody
      exact ⟨.oneOf negated body, false, depth, after, .oneOf hclass hclose hcaret hin, hafter,
        fun fuel => (hchar fuel).trans (by simp [hclass, hbody])⟩
  by_cases hopen : c = '\x7b'
  · exact ⟨.opening, false, depth + 1, cs, .opening, List.suffix_rfl, fun fuel => (hchar fuel).trans (by simp [hopen])⟩
  cases depth with
  | zero =>
    exact ⟨.char c, c == '/', 0, cs, .simple rfl, List.suffix_rfl,
      fun fuel => (hchar fuel).trans (by simp [hrun, hone, hclass, hopen])⟩
  | succ depth =>
    by_cases hclosing : c = '\x7d'
    · exact ⟨.closing, false, depth, cs, .closing, List.suffix_rfl,
        fun fuel => (hchar fuel).trans (by simp [hclosing])⟩
    by_cases hbar : c = ','
    · exact ⟨.bar, false, depth + 1, cs, .bar, List.suffix_rfl, fun fuel => (hchar fuel).trans (by simp [hbar])⟩
    exact ⟨.char c, c == '/', depth + 1, cs, .simple rfl, List.suffix_rfl,
      fun fuel => (hchar fuel).trans (by simp [hrun, hone, hclass, hopen, hclosing, hbar])⟩

/-- No more steps are needed than there are characters. -/
theorem piecesFrom_fuel {fuel' : Nat} {atStart : Bool} (h : cs.length < fuel) (h' : cs.length < fuel') :
    piecesFrom fuel atStart depth cs = piecesFrom fuel' atStart depth cs := by
  induction fuel generalizing fuel' atStart depth cs with
  | zero => cases h
  | succ fuel ih =>
    obtain ⟨fuel', rfl⟩ : ∃ k, fuel' = k + 1 := ⟨fuel' - 1, by omega⟩
    cases cs with
    | nil => rfl
    | cons c cs =>
      obtain ⟨x, start', depth', rest, _, hrest, hpieces⟩ := piecesFrom_cons atStart depth c cs
      have hlength := hrest.length_le
      simp only [List.length_cons] at h h'
      have hrest' : piecesFrom fuel start' depth' rest = piecesFrom fuel' start' depth' rest :=
        ih (by omega) (by omega)
      rw [hpieces, hpieces, hrest']

/-- Whatever the glob is, its pieces are well nested, if only no class is empty. -/
theorem nested_piecesFrom {atStart : Bool} (hslash : '\\' ∉ cs) (hfuel : cs.length < fuel)
    (hfilled : ∀ negated, .oneOf negated [] ∉ piecesFrom fuel atStart depth cs) :
    Nested depth (piecesFrom fuel atStart depth cs) := by
  induction fuel generalizing atStart depth cs with
  | zero => cases hfuel
  | succ fuel ih =>
    cases cs with
    | nil =>
      rw [piecesFrom]
      · exact .replicate depth
      · exact fun h => by cases h
    | cons c cs =>
      obtain ⟨x, start', depth', rest, htaken, hrest, hpieces⟩ := piecesFrom_cons atStart depth c cs
      rw [hpieces] at hfilled ⊢
      simp only [List.mem_cons, not_or] at hslash hfilled
      have hnested : Nested depth' (piecesFrom fuel start' depth' rest) := by
        refine ih (fun h => hslash.2 (hrest.subset h)) ?_ fun negated => (hfilled negated).2
        have hlength := hrest.length_le
        rw [List.length_cons] at hfuel
        omega
      cases htaken with
      | simple hx => exact hnested.single (.simple hx)
      | @oneOf _ negated body _ hclose hcaret hin =>
        have hne : body ≠ [] := by
          rintro rfl
          exact (hfilled negated).1 rfl
        exact hnested.single (.oneOf ⟨hclose, fun h => hslash.2 (hin.subset h), hcaret⟩ hne)
      | opening => exact hnested.opening
      | bar => exact hnested.bar
      | closing => exact hnested.closing

def classBodies (glob : String) : List (List Char) :=
  (pieces (normalizeChars glob.toList)).filterMap fun
    | .oneOf _ body => some body
    | _ => none

theorem mem_classBodies {glob : String} :
    body ∈ classBodies glob ↔ ∃ negated, .oneOf negated body ∈ pieces (normalizeChars glob.toList) := by
  rw [classBodies, List.mem_filterMap]
  constructor
  · rintro ⟨x, hx, heq⟩
    cases x with
    | oneOf negated body' =>
      cases heq
      exact ⟨negated, hx⟩
    | _ => cases heq
  · rintro ⟨negated, hx⟩
    exact ⟨_, hx, rfl⟩

/-- No class of the glob has a range that runs backwards. -/
def ClassesInOrder (glob : String) : Prop := ∀ body ∈ classBodies glob, RangesInOrder body

instance (glob : String) : Decidable (ClassesInOrder glob) :=
  inferInstanceAs (Decidable (∀ body ∈ classBodies glob, RangesInOrder body))

theorem all_inOrder_pieces (glob : String) :
    (pieces (normalizeChars glob.toList)).all Piece.inOrder = true ↔ ClassesInOrder glob := by
  rw [List.all_eq_true]
  constructor
  · intro h body hbody
    obtain ⟨negated, hx⟩ := mem_classBodies.mp hbody
    exact of_decide_eq_true (h _ hx)
  · intro h x hx
    cases x with
    | oneOf negated body => exact decide_eq_true (h body (mem_classBodies.mpr ⟨negated, hx⟩))
    | _ => rfl

theorem classBodies_of_notMem {glob : String} (h : '[' ∉ glob.toList) : classBodies glob = [] := by
  have hpieces (fuel : Nat) (atStart : Bool) (depth : Nat) (cs : List Char) (hcs : '[' ∉ cs)
      (negated : Bool) (body : List Char) : .oneOf negated body ∉ piecesFrom fuel atStart depth cs := by
    induction fuel generalizing atStart depth cs with
    | zero => exact List.not_mem_nil
    | succ fuel ih =>
      cases cs with
      | nil =>
        rw [piecesFrom]
        · exact fun hin => by cases List.eq_of_mem_replicate hin
        · exact fun h => by cases h
      | cons c cs =>
        obtain ⟨x, start', depth', rest, htaken, hrest, heq⟩ := piecesFrom_cons atStart depth c cs
        rw [List.mem_cons, not_or] at hcs
        rw [heq, List.mem_cons, not_or]
        refine ⟨?_, ih start' depth' rest fun hin => hcs.2 (hrest.subset hin)⟩
        rintro rfl
        cases htaken with
        | simple hx => cases hx
        | oneOf hc => exact hcs.1 hc.symm
  refine List.eq_nil_iff_forall_not_mem.mpr fun body hbody => ?_
  obtain ⟨negated, hx⟩ := mem_classBodies.mp hbody
  exact hpieces _ true 0 _ (fun hin => (mem_normalizeChars hin).elim (by decide) h) negated body hx

/-- A glob without empty classes is an expression just if no range in it runs backwards. -/
theorem compileGlob_of_filled {glob : String} (hfilled : [] ∉ classBodies glob) :
    ∃ r, Reads (pieces (normalizeChars glob.toList)) r ∧
      compileGlob glob = if ClassesInOrder glob then .ok r else .error .badRange := by
  have hnested : Nested 0 (pieces (normalizeChars glob.toList)) := by
    refine nested_piecesFrom (backslash_normalizeChars glob.toList) (Nat.lt_succ_self _) ?_
    intro negated hx
    exact hfilled (mem_classBodies.mpr ⟨negated, hx⟩)
  obtain ⟨r, hreads⟩ := hnested.reads
  refine ⟨r, hreads, ?_⟩
  rw [compileGlob, hreads.ofText]
  simp only [all_inOrder_pieces]

end JudgedLint.Pattern
