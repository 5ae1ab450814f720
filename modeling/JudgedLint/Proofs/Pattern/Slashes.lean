import JudgedLint.Proofs.Pattern.Groups
import Mathlib.Algebra.Ring.Nat

/-! How many folders deep a path lies that a glob matches. A star stays inside its segment and so does a
question mark, but a class is copied into the expression as it stands, so it takes a slash for any other
character that it has or, if it is negated, that it does not have. -/
namespace JudgedLint.Pattern

open Regex (Matches)

variable {c : Char} {body cs rest w : List Char} {ps : List Piece} {r : Regex} {path glob : String}

/-- The slashes of a path or a glob. -/
def slashes (s : String) : Nat := (normalizeChars s.toList).count '/'

/-- Whether the piece is a class that takes a slash. -/
def Piece.crosses : Piece → Bool
  | .oneOf negated body => CharClass.holds ⟨negated, classMembers body⟩ '/'
  | _ => false

def Piece.slashes : Piece → Nat
  | .char c => [c].count '/'
  | .oneOf _ body => body.count '/'
  | _ => 0

def Piece.isFlat : Piece → Bool
  | .run | .one | .char _ | .oneOf _ _ => true
  | _ => false

/-- The classes of a glob that take a slash. -/
def crossings (glob : String) : Nat := (pieces (normalizeChars glob.toList)).countP Piece.crosses

/-! ## Reading -/

theorem classBody?_append {negated : Bool} (h : classBody? cs = some (negated, body, rest)) :
    ∃ sign, cs = sign ++ (body ++ ']' :: rest) ∧ '/' ∉ sign := by
  unfold classBody? at h
  extract_lets sign inner at h
  have hinner : ∃ front, cs = front ++ inner ∧ '/' ∉ front := by
    unfold inner
    split
    · next hsign =>
      cases cs with
      | nil => exact absurd hsign Bool.false_ne_true
      | cons c cs =>
        have hc : (c == '!' || c == '^') = true := hsign
        refine ⟨[c], rfl, ?_⟩
        intro hslash
        rw [← List.mem_singleton.mp hslash] at hc
        cases hc
    · exact ⟨[], rfl, List.not_mem_nil⟩
  obtain ⟨front, hcs, hfront⟩ := hinner
  have hwhole : inner.takeWhile (· != ']') ++ inner.dropWhile (· != ']') = inner :=
    List.takeWhile_append_dropWhile
  rw [List.span_eq_takeWhile_dropWhile] at h
  cases hbehind : inner.dropWhile (· != ']') with
  | nil =>
    rw [hbehind] at h
    cases h
  | cons d after =>
    rw [hbehind] at h hwhole
    obtain ⟨_, rfl, rfl⟩ : sign = negated ∧ inner.takeWhile (· != ']') = body ∧ after = rest := by
      simpa using h
    have hd : d = ']' := by
      have hhead := List.head?_dropWhile_not (· != ']') inner
      rw [hbehind] at hhead
      simpa using hhead
    rw [hd] at hwhole
    exact ⟨front, by rw [hwhole, hcs], hfront⟩

/-- A glob without `**` and braces is read piece by piece. -/
theorem piecesFrom_flat (atStart : Bool) (hmany : ∀ rest, c :: cs ≠ '*' :: '*' :: rest) (hbrace : c ≠ '\x7b') :
    ∃ x start' rest, x.isFlat = true ∧ rest <:+ cs ∧
      (c :: cs).count '/' = x.slashes + rest.count '/' ∧
      ∀ fuel, piecesFrom (fuel + 1) atStart 0 (c :: cs) = x :: piecesFrom fuel start' 0 rest := by
  by_cases hclass : c = '[' ∧ ∃ found, classBody? cs = some found
  · obtain ⟨rfl, ⟨negated, body, after⟩, hbody⟩ := hclass
    obtain ⟨sign, heq, hsign⟩ := classBody?_append hbody
    refine ⟨.oneOf negated body, false, after, rfl, (classBody?_eq_some hbody).2.2.2, ?_, ?_⟩
    · rw [heq]
      simp [Piece.slashes, List.count_eq_zero.mpr hsign]
    · intro fuel
      rw [piecesFrom]
      · simp [hbody]
      · exact fun after hc hcs => hmany after (by rw [hc, hcs])
  have hchar (fuel : Nat) : piecesFrom (fuel + 1) atStart 0 (c :: cs) = _ :=
    piecesFrom.eq_6 atStart 0 fuel c cs fun after hc hcs => hmany after (by rw [hc, hcs])
  by_cases hrun : c = '*'
  · subst hrun
    exact ⟨.run, false, cs, rfl, List.suffix_rfl, by simp [Piece.slashes], fun fuel => (hchar fuel).trans (by simp)⟩
  by_cases hone : c = '?'
  · subst hone
    exact ⟨.one, false, cs, rfl, List.suffix_rfl, by simp [Piece.slashes], fun fuel => (hchar fuel).trans (by simp)⟩
  have hcount : (c :: cs).count '/' = (Piece.char c).slashes + cs.count '/' := by
    rw [← List.singleton_append, List.count_append]
    rfl
  by_cases hbracket : c = '['
  · cases hbody : classBody? cs with
    | some found => exact absurd ⟨hbracket, found, hbody⟩ hclass
    | none =>
      exact ⟨.char c, false, cs, rfl, List.suffix_rfl, hcount,
        fun fuel => (hchar fuel).trans (by simp [hbracket, hbody])⟩
  exact ⟨.char c, c == '/', cs, rfl, List.suffix_rfl, hcount,
    fun fuel => (hchar fuel).trans (by simp [hrun, hone, hbracket, hbrace])⟩

theorem flat_piecesFrom {fuel : Nat} (atStart : Bool) (hmany : ¬manySegments <:+: cs) (hbrace : '\x7b' ∉ cs)
    (hfuel : cs.length < fuel) :
    (∀ x ∈ piecesFrom fuel atStart 0 cs, x.isFlat = true) ∧
      cs.count '/' = ((piecesFrom fuel atStart 0 cs).map Piece.slashes).sum := by
  -- a class is read in one step, so the induction is on the fuel and not on the characters
  induction fuel generalizing atStart cs with
  | zero => cases hfuel
  | succ fuel ih =>
    cases cs with
    | nil =>
      rw [piecesFrom]
      · simp
      · exact fun h => by cases h
    | cons c cs =>
      rw [List.mem_cons, not_or] at hbrace
      have hstars : ∀ rest, c :: cs ≠ '*' :: '*' :: rest := by
        intro rest heq
        exact hmany ⟨[], rest, by rw [heq]; rfl⟩
      obtain ⟨x, start', rest, hx, hrest, hcount, hpieces⟩ := piecesFrom_flat atStart hstars (Ne.symm hbrace.1)
      have hinfix : rest <:+: c :: cs := hrest.isInfix.trans (List.suffix_cons c cs).isInfix
      have hlength := hrest.length_le
      rw [List.length_cons] at hfuel
      obtain ⟨hflat, hsum⟩ := ih start' (fun h => hmany (h.trans hinfix))
        (fun h => hbrace.2 (hrest.subset h)) (by omega)
      rw [hpieces, hcount, hsum, List.map_cons, List.sum_cons]
      refine ⟨?_, rfl⟩
      intro y hy
      rcases List.mem_cons.mp hy with rfl | hy
      · exact hx
      · exact hflat y hy

/-! ## Matching -/

/-- A flat piece matches its own slashes, and one more if it is a class that takes one. -/
theorem count_of_matches {x : Piece} (hx : x.isFlat = true) (hbody : ∀ negated body, x = .oneOf negated body → '/' ∉ body)
    (h : Matches x.regex w) : ∃ n ≤ [x].countP Piece.crosses, w.count '/' = x.slashes + n := by
  cases x with
  | run => exact ⟨0, Nat.zero_le _, List.count_eq_zero.mpr (matches_run.mp h)⟩
  | one =>
    obtain ⟨c, hc, rfl⟩ := matches_notSlash.mp h
    exact ⟨0, Nat.zero_le _, List.count_eq_zero.mpr (by simpa using Ne.symm hc)⟩
  | char c =>
    cases h
    exact ⟨0, Nat.zero_le _, rfl⟩
  | oneOf negated body =>
    obtain ⟨c, hc⟩ : ∃ c, CharClass.holds ⟨negated, classMembers body⟩ c = true ∧ w = [c] := by
      cases h
      exact ⟨_, ‹_›, rfl⟩
    obtain ⟨hholds, rfl⟩ := hc
    have hown : (Piece.oneOf negated body).slashes = 0 := List.count_eq_zero.mpr (hbody negated body rfl)
    rw [hown]
    by_cases hslash : c = '/'
    · subst hslash
      exact ⟨1, by simp [Piece.crosses, hholds], rfl⟩
    · exact ⟨0, Nat.zero_le _, List.count_eq_zero.mpr (by simpa using Ne.symm hslash)⟩
  | _ => cases hx

theorem Reads.count_of_matches (h : Reads ps r) (hflat : ∀ x ∈ ps, x.isFlat = true)
    (hbody : ∀ negated body, .oneOf negated body ∈ ps → '/' ∉ body) (hw : Matches r w) :
    ∃ n ≤ ps.countP Piece.crosses, w.count '/' = (ps.map Piece.slashes).sum + n := by
  induction h generalizing w with
  | nil =>
    cases hw
    exact ⟨0, Nat.le_refl _, rfl⟩
  | @piece x ps s hx hps ih =>
    cases hw with
    | seq hu hv =>
      obtain ⟨n, hn, hcount⟩ := Pattern.count_of_matches (hflat x List.mem_cons_self)
        (fun negated body heq => hbody negated body (heq ▸ List.mem_cons_self)) hu
      obtain ⟨m, hm, hcount'⟩ := ih (fun y hy => hflat y (List.mem_cons_of_mem x hy))
        (fun negated body hy => hbody negated body (List.mem_cons_of_mem x hy)) hv
      refine ⟨n + m, ?_, ?_⟩
      · rw [← List.singleton_append, List.countP_append]
        omega
      · rw [List.count_append, hcount, hcount', List.map_cons, List.sum_cons]
        omega
  | group => cases hflat .opening List.mem_cons_self

theorem dropDotSlash_suffix (cs : List Char) : dropDotSlash cs <:+ cs := by
  fun_induction dropDotSlash cs with
  | case1 rest ih => exact ih.trans ⟨['.', '/'], rfl⟩
  | case2 cs => exact List.suffix_rfl

theorem manySegments_of_normalizeChars (h : manySegments <:+: normalizeChars cs) : manySegments <:+: cs := by
  obtain ⟨stars, hstars, heq⟩ := List.infix_map_iff.mp (h.trans (dropDotSlash_suffix _).isInfix)
  have hkept : ∀ c ∈ stars, (if c == '\\' then '/' else c) = c := by
    intro c hc
    have hstar : (if c == '\\' then '/' else c) ∈ manySegments := by
      rw [heq]
      exact List.mem_map_of_mem hc
    rw [manySegments, List.mem_cons, List.mem_singleton, or_self] at hstar
    split at hstar
    · cases hstar
    · next hne => exact if_neg hne
  rw [heq, List.map_congr_left hkept, List.map_id']
  exact hstars

/-- A path that a glob without `**` and braces matches lies as deep as the glob says, except that each
class that takes a slash may take one. -/
theorem matchGlob_slashes (hmany : ¬manySegments <:+: glob.toList) (hbrace : '\x7b' ∉ glob.toList)
    (hfilled : [] ∉ classBodies glob) (hbodies : ∀ body ∈ classBodies glob, '/' ∉ body)
    (h : matchGlob path glob = .ok true) : ∃ n ≤ crossings glob, slashes path = slashes glob + n := by
  obtain ⟨r, hreads, hcompile⟩ := compileGlob_of_filled hfilled
  obtain ⟨r', hr, haccepts⟩ := bind_eq_ok.mp h
  rw [hcompile] at hr
  split at hr
  · cases hr
    have hmatches := (Regex.accepts_iff r _).mp (pure_eq_ok.mp haccepts)
    have hmany' : ¬manySegments <:+: normalizeChars glob.toList := fun h => hmany (manySegments_of_normalizeChars h)
    have hbrace' : '\x7b' ∉ normalizeChars glob.toList := fun h => (mem_normalizeChars h).elim (by decide) hbrace
    obtain ⟨hflat, hsum⟩ := flat_piecesFrom true hmany' hbrace' (Nat.lt_succ_self _)
    rw [slashes, slashes, hsum]
    exact hreads.count_of_matches hflat (fun negated body hx => hbodies body (mem_classBodies.mpr ⟨negated, hx⟩))
      hmatches
  · cases hr

/-- No class of this glob takes a slash. -/
theorem matchGlob_slashes_classes :
    crossings "./src/[a-z_]*/?[0-9].ts" = 0 ∧ matchGlob "src/run_a/t1.ts" "./src/[a-z_]*/?[0-9].ts" = .ok true ∧
      slashes "src/run_a/t1.ts" = slashes "./src/[a-z_]*/?[0-9].ts" := by
  have hnone : crossings "./src/[a-z_]*/?[0-9].ts" = 0 := by decide +kernel
  have hmatch : matchGlob "src/run_a/t1.ts" "./src/[a-z_]*/?[0-9].ts" = .ok true := by decide +kernel
  obtain ⟨n, hn, hslashes⟩ :=
    matchGlob_slashes (by decide) (by decide) (by decide +kernel) (by decide +kernel) hmatch
  rw [hnone, Nat.le_zero] at hn
  subst hn
  exact ⟨hnone, hmatch, hslashes⟩

/-- A negated class takes a slash, and so does a range in which the slash lies. -/
theorem class_crosses :
    (¬manySegments <:+: "a[!x]b".toList ∧ '\x7b' ∉ "a[!x]b".toList ∧ classBodies "a[!x]b" = [['x']]) ∧
      matchGlob "a/b" "a[!x]b" = .ok true ∧ matchGlob "a/b" "a[+-9]b" = .ok true ∧
      slashes "a/b" = 1 ∧ slashes "a[!x]b" = 0 ∧ slashes "a[+-9]b" = 0 := by
  refine ⟨⟨by decide, by decide, by decide +kernel⟩, by decide +kernel, by decide +kernel, ?_, ?_, ?_⟩
  · decide
  · decide
  · decide

end JudgedLint.Pattern
