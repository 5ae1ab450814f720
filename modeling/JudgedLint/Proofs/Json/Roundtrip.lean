import JudgedLint.Proofs.Json.Members
import JudgedLint.Proofs.Json.Number
import JudgedLint.Proofs.Json.Quoted
import JudgedLint.Proofs.Json.Reading

/-! Values are read back in whichever layout they were written, each object with one member per key; two
halves of a surrogate pair that stand side by side become the character they make. -/
namespace JudgedLint.Json

open Text (isWellFormed)

variable {l : Limits} {lay : Layout} {rest cs : List Char} {fuel depth levels digits : Nat} {c : Char}

/-- Takes what is written at large, with whole numbers of at most so many digits. -/
def Limits.upTo (digits : Nat) : Limits := { Limits.general with digits }

def Layout.stacked (ascii : Bool) : Layout := ⟨ascii, true⟩

theorem value_eq_scalar (h : ∀ c ∈ cs.head?, c ≠ '[' ∧ c ≠ '\x7b') :
    value l (fuel + 1) levels cs = scalar l fuel cs := by
  rw [value]
  · rintro rest rfl
    exact (h '[' rfl).1 rfl
  · rintro rest rfl
    exact (h '\x7b' rfl).2 rfl

theorem quoted_append (ascii : Bool) (s : String) (rest : List Char) :
    (quotedText ascii s).toList ++ rest =
      '"' :: (s.toList.flatMap (charText ascii) ++ '"' :: rest) := by
  simp [quotedText, textChars]

theorem textBody_quoted (ascii : Bool) {s : String} (hs : l.Takes s.toList) (whole : List Char)
    (hfuel : ((quotedText ascii s).toList ++ rest).length ≤ fuel) :
    textBody l whole fuel (s.toList.flatMap (charText ascii) ++ '"' :: rest) =
      .ok (paired s.toList, rest) := by
  refine textBody_textChars ascii hs ?_
  have hlen := length_textChars ascii s.toList
  rw [quoted_append] at hfuel
  simp only [List.length_cons, List.length_append] at hfuel
  omega

theorem scalar_quoted {ascii : Bool} {s : String} (hs : l.Takes s.toList)
    (hfuel : ((quotedText ascii s).toList ++ rest).length ≤ fuel) :
    scalar l fuel ((quotedText ascii s).toList ++ rest) =
      .ok (.str (String.ofList (paired s.toList)), rest) := by
  have hbody := textBody_quoted ascii hs ((quotedText ascii s).toList ++ rest) hfuel
  rw [quoted_append] at hbody ⊢
  rw [scalar, word?_eq_none (by decide)]
  simp only [hbody]
  rfl

/-! ### The layout -/

theorem skipSpace_of_head (h : ∀ c ∈ cs.head?, isSpace c = false) : skipSpace cs = cs := by
  cases cs with
  | nil => rfl
  | cons c cs => rw [skipSpace, List.dropWhile_cons_of_neg (by simp [h c rfl])]

theorem skipSpace_lineStart (depth : Nat) (cs : List Char) :
    skipSpace ((lineStart depth).toList ++ cs) = skipSpace cs := by
  have hspaces : ∀ c ∈ (lineStart depth).toList, isSpace c = true := by
    intro c hc
    simp only [lineStart, String.toList_ofList, List.mem_cons, List.mem_replicate] at hc
    rcases hc with rfl | ⟨_, rfl⟩ <;> rfl
  rw [skipSpace, List.dropWhile_append_of_pos hspaces]
  rfl

theorem toList_intercalate (sep part : String) (parts : List String) :
    (sep.intercalate (part :: parts)).toList =
      part.toList ++ parts.flatMap fun q => sep.toList ++ q.toList := by
  rw [String.toList_intercalate, List.map_cons]
  induction parts generalizing part with
  | nil => simp
  | cons q rest ih =>
    rw [List.map_cons, List.intercalate_cons_cons, ih]
    simp

def Layout.margin (lay : Layout) (depth : Nat) : List Char :=
  if lay.indented then (lineStart depth).toList else []

def Layout.gap (lay : Layout) (depth : Nat) : List Char :=
  if lay.indented then (lineStart depth).toList else [' ']

theorem skipSpace_margin (lay : Layout) (depth : Nat) (cs : List Char) :
    skipSpace (lay.margin depth ++ cs) = skipSpace cs := by
  rw [Layout.margin]
  split
  · exact skipSpace_lineStart depth cs
  · rfl

theorem skipSpace_gap (lay : Layout) (depth : Nat) (cs : List Char) :
    skipSpace (lay.gap depth ++ cs) = skipSpace cs := by
  rw [Layout.gap]
  split
  · exact skipSpace_lineStart depth cs
  · rfl

def more (lay : Layout) (depth : Nat) (parts : List String) : List Char :=
  parts.flatMap fun q => ',' :: (lay.gap depth ++ q.toList)

theorem bracketed_cons (lay : Layout) (depth : Nat) (opening closing part : String) (parts : List String) :
    (bracketed lay depth opening closing (part :: parts)).toList =
      opening.toList ++ (lay.margin (depth + 1) ++ (part.toList ++ (more lay (depth + 1) parts ++
        (lay.margin depth ++ closing.toList)))) := by
  obtain ⟨ascii, indented⟩ := lay
  rw [bracketed, if_neg (by simp)]
  cases indented with
  | true =>
    simp only [if_true, String.toList_append, toList_intercalate, more, Layout.gap, Layout.margin,
      List.append_assoc]
    rfl
  | false =>
    simp only [Bool.false_eq_true, if_false, String.toList_append, toList_intercalate, more, Layout.gap,
      Layout.margin, List.append_assoc]
    rfl

theorem endsNumber_more (lay : Layout) (depth outer : Nat) (parts : List String) (hc : c ∈ [']', '\x7d']) :
    EndsNumber (more lay depth parts ++ (lay.margin outer ++ c :: cs)) := by
  intro c' hc'
  cases parts with
  | nil =>
    cases hi : lay.indented with
    | true =>
      simp only [more, Layout.margin, hi, if_true, List.flatMap_nil, List.nil_append, lineStart,
        String.toList_ofList, List.cons_append, List.head?_cons, Option.mem_def, Option.some.injEq] at hc'
      subst hc'
      decide
    | false =>
      simp only [more, Layout.margin, hi, Bool.false_eq_true, if_false, List.flatMap_nil, List.nil_append,
        List.head?_cons, Option.mem_def, Option.some.injEq] at hc'
      subst hc'
      simp only [List.mem_cons, List.not_mem_nil, or_false] at hc
      rcases hc with rfl | rfl <;> decide
  | cons q parts =>
    simp only [more, List.flatMap_cons, List.cons_append, List.head?_cons, Option.mem_def,
      Option.some.injEq] at hc'
    subst hc'
    decide

/-! ### Whole values -/

mutual
/-- The value that is read where one is written: a key has one member, and of several the last
counts. -/
def settled : Json → Json
  | .arr items => .arr (settledItems items)
  | .obj ms => .obj (members (settledMembers ms))
  | j => j

def settledItems : List Json → List Json
  | [] => []
  | j :: rest => settled j :: settledItems rest

def settledMembers : List (String × Json) → List (String × Json)
  | [] => []
  | (k, j) :: rest => (k, settled j) :: settledMembers rest
end

theorem settledItems_eq (items : List Json) : settledItems items = items.map settled := by
  induction items with
  | nil => rfl
  | cons j rest ih => rw [settledItems, ih]; rfl

theorem settledMembers_eq (ms : List (String × Json)) :
    settledMembers ms = ms.map fun m => (m.1, settled m.2) := by
  induction ms with
  | nil => rfl
  | cons m rest ih => rw [settledMembers, ih]; rfl

def pairedText (s : String) : String := String.ofList (paired s.toList)

theorem pairedText_of_isWellFormed {s : String} (h : isWellFormed s = true) : pairedText s = s := by
  rw [pairedText, paired_of_not_standIn (by simpa [isWellFormed] using h), String.ofList_toList]

theorem pairedText_ne_empty {s : String} (h : s ≠ "") : pairedText s ≠ "" := by
  intro heq
  have hnil : paired s.toList = [] := by
    rw [← String.toList_ofList (l := paired s.toList)]
    exact congrArg String.toList heq
  refine paired_ne_nil (fun hs => h ?_) hnil
  rw [← String.ofList_toList (s := s), hs]

mutual
/-- The value that is read where one is written, whatever its texts. -/
def regained : Json → Json
  | .str s => .str (pairedText s)
  | .arr items => .arr (regainedItems items)
  | .obj ms => .obj (members (regainedMembers ms))
  | j => j

def regainedItems : List Json → List Json
  | [] => []
  | j :: rest => regained j :: regainedItems rest

def regainedMembers : List (String × Json) → List (String × Json)
  | [] => []
  | (k, j) :: rest => (pairedText k, regained j) :: regainedMembers rest
end

theorem regainedItems_eq (items : List Json) : regainedItems items = items.map regained := by
  induction items with
  | nil => rfl
  | cons j rest ih => rw [regainedItems, ih]; rfl

theorem regainedMembers_eq (ms : List (String × Json)) :
    regainedMembers ms = ms.map fun m => (pairedText m.1, regained m.2) := by
  induction ms with
  | nil => rfl
  | cons m rest ih => rw [regainedMembers, ih]; rfl

/-- A value whose numbers are whole and have at most so many digits, nested at most so many levels
deep. -/
inductive Sized (digits : Nat) : Nat → Json → Prop where
  | null {levels : Nat} : Sized digits levels .null
  | bool {levels : Nat} (b : Bool) : Sized digits levels (.bool b)
  | int {levels : Nat} {n : Int} (h : (Nat.toDigits 10 n.natAbs).length ≤ digits) :
      Sized digits levels (.int n)
  | str {levels : Nat} (s : String) : Sized digits levels (.str s)
  | arr {levels : Nat} {items : List Json} (h : ∀ v ∈ items, Sized digits levels v) :
      Sized digits (levels + 1) (.arr items)
  | obj {levels : Nat} {ms : List (String × Json)} (h : ∀ m ∈ ms, Sized digits levels m.2) :
      Sized digits (levels + 1) (.obj ms)

/-- A value that can be written so that it is read back: its texts are well-formed, its numbers are
whole and not too long, and it is nested at most so many levels deep. -/
inductive Writable : Nat → Json → Prop where
  | null {levels : Nat} : Writable levels .null
  | bool {levels : Nat} (b : Bool) : Writable levels (.bool b)
  | int {levels : Nat} {n : Int} (h : IsShort n) : Writable levels (.int n)
  | str {levels : Nat} {s : String} (h : isWellFormed s = true) : Writable levels (.str s)
  | arr {levels : Nat} {items : List Json} (h : ∀ v ∈ items, Writable levels v) :
      Writable (levels + 1) (.arr items)
  | obj {levels : Nat} {ms : List (String × Json)} (hk : ∀ m ∈ ms, isWellFormed m.1 = true)
      (h : ∀ m ∈ ms, Writable levels m.2) : Writable (levels + 1) (.obj ms)

/-- A value that is read back: the reader takes its texts and its numbers, and it is nested at most so many
levels deep. -/
inductive Readable (l : Limits) : Nat → Json → Prop where
  | null {levels : Nat} : Readable l levels .null
  | bool {levels : Nat} (b : Bool) : Readable l levels (.bool b)
  | int {levels : Nat} {n : Int}
      (h : l.isExceeded (n < 0) true (Nat.toDigits 10 n.natAbs).length = false) :
      Readable l levels (.int n)
  | float {levels : Nat} (x : Float) (h : 17 ≤ l.digits) : Readable l levels (.float x)
  | str {levels : Nat} {s : String} (h : l.Takes s.toList) : Readable l levels (.str s)
  | arr {levels : Nat} {items : List Json} (h : ∀ v ∈ items, Readable l levels v) :
      Readable l (levels + 1) (.arr items)
  | obj {levels : Nat} {ms : List (String × Json)} (hk : ∀ m ∈ ms, l.Takes m.1.toList)
      (h : ∀ m ∈ ms, Readable l levels m.2) : Readable l (levels + 1) (.obj ms)

theorem Sized.readable {j : Json} (h : Sized digits levels j) : Readable (.upTo digits) levels j := by
  induction h with
  | null => exact .null
  | bool b => exact .bool b
  | int hn => exact .int (decide_eq_false (Nat.not_lt.mpr hn))
  | str => exact .str (.inl rfl)
  | arr _ ih => exact .arr ih
  | obj _ ih => exact .obj (fun _ _ => .inl rfl) ih

/-- Where halves of pairs are refused, the value itself is read back. -/
theorem Readable.regained {j : Json} (h : Readable l levels j) (hl : l.unpaired = false)
    (hj : j.Proper digits) : j.regained = j := by
  have htext : ∀ {s : String}, l.Takes s.toList → pairedText s = s := fun hs =>
    pairedText_of_isWellFormed (by
      rw [isWellFormed, hs.resolve_left (by rw [hl]; decide)]
      rfl)
  induction h with
  | null => rfl
  | bool => rfl
  | int => rfl
  | float => rfl
  | str hs => rw [Json.regained, htext hs]
  | arr _ ih =>
    cases hj with
    | arr hitems =>
      rw [Json.regained, regainedItems_eq, List.map_congr_left fun v hv => ih v hv (hitems v hv),
        List.map_id']
  | obj hk _ ih =>
    cases hj with
    | obj hd hms =>
      rw [Json.regained, regainedMembers_eq, List.map_congr_left (g := fun m => m) fun m hm => by
        rw [htext (hk m hm), ih m hm (hms m hm)], List.map_id', members_of_distinct hd]

theorem Writable.sized {j : Json} (h : Writable levels j) (hd : Limits.general.digits ≤ digits) :
    Sized digits levels j := by
  induction h with
  | null => exact .null
  | bool b => exact .bool b
  | int hn => exact .int (Nat.le_trans hn hd)
  | str => exact .str _
  | arr _ ih => exact .arr ih
  | obj _ _ ih => exact .obj ih

theorem Writable.regained {j : Json} (h : Writable levels j) : j.regained = j.settled := by
  induction h with
  | null => rfl
  | bool => rfl
  | int => rfl
  | str hs => rw [Json.regained, pairedText_of_isWellFormed hs]; rfl
  | arr _ ih =>
    rw [Json.regained, settled, regainedItems_eq, settledItems_eq, List.map_congr_left ih]
  | obj hk _ ih =>
    rw [Json.regained, settled, regainedMembers_eq, settledMembers_eq]
    refine congrArg (fun ms => Json.obj (members ms)) (List.map_congr_left fun m hm => ?_)
    rw [pairedText_of_isWellFormed (hk m hm), ih m hm]

theorem text_head (lay : Layout) (depth : Nat) (j : Json) :
    ∃ c cs, (textAt lay depth j).toList = c :: cs ∧ isSpace c = false ∧ c ≠ ']' ∧ c ≠ '\uFEFF' := by
  have hnumber : ∀ {cs : List Char}, (∃ c cs', cs = c :: cs' ∧ StartsNumber c) →
      ∃ c cs', cs = c :: cs' ∧ isSpace c = false ∧ c ≠ ']' ∧ c ≠ '\uFEFF' := by
    rintro _ ⟨c, cs, rfl, hc⟩
    have hout := hc.notMem
    simp only [List.mem_cons, List.not_mem_nil, or_false, not_or] at hout
    obtain ⟨_, _, hclose, hmark, hblank, htab, hfeed, hreturn⟩ := hout
    exact ⟨c, cs, rfl, by simp [isSpace, hblank, htab, hfeed, hreturn], hclose, hmark⟩
  cases j with
  | null => exact ⟨'n', ['u', 'l', 'l'], by simp [textAt], rfl, by decide⟩
  | bool b =>
    cases b with
    | true => exact ⟨'t', ['r', 'u', 'e'], by simp [textAt], rfl, by decide⟩
    | false => exact ⟨'f', ['a', 'l', 's', 'e'], by simp [textAt], rfl, by decide⟩
  | int n => exact hnumber (toString_head n)
  | float x => exact hnumber (numberText_head x)
  | str s =>
    have hquoted := quoted_append lay.ascii s []
    rw [List.append_nil] at hquoted
    exact ⟨'"', _, hquoted, rfl, by decide⟩
  | arr items =>
    cases items with
    | nil => exact ⟨'[', [']'], by simp [textAt, itemTexts, bracketed], rfl, by decide⟩
    | cons j items =>
      rw [textAt, itemTexts, bracketed_cons]
      exact ⟨'[', _, rfl, rfl, by decide⟩
  | obj ms =>
    cases ms with
    | nil => exact ⟨'\x7b', ['\x7d'], by simp [textAt, memberTexts, bracketed], rfl, by decide⟩
    | cons m ms =>
      rw [textAt, memberTexts, bracketed_cons]
      exact ⟨'\x7b', _, rfl, rfl, by decide⟩

theorem skipSpace_text (lay : Layout) (depth : Nat) (j : Json) (rest : List Char) :
    skipSpace ((textAt lay depth j).toList ++ rest) = (textAt lay depth j).toList ++ rest := by
  obtain ⟨c, cs, hcs, hspace, _⟩ := text_head lay depth j
  refine skipSpace_of_head fun c' hc' => ?_
  rw [hcs] at hc'
  cases hc'
  exact hspace

def memberText (lay : Layout) (depth : Nat) (k : String) (j : Json) : List Char :=
  (quotedText lay.ascii k).toList ++ ':' :: ' ' :: (textAt lay depth j).toList

theorem memberTexts_cons (lay : Layout) (depth : Nat) (k : String) (j : Json)
    (ms : List (String × Json)) : ∃ q,
      memberTexts lay depth ((k, j) :: ms) = q :: memberTexts lay depth ms ∧
      q.toList = memberText lay depth k j := by
  refine ⟨_, rfl, ?_⟩
  simp [memberText]

theorem memberText_skipSpace (depth : Nat) (k : String) (j : Json) (rest : List Char) :
    skipSpace (memberText lay depth k j ++ rest) = memberText lay depth k j ++ rest := by
  refine skipSpace_of_head ?_
  rw [memberText, List.append_assoc, quoted_append]
  simp [isSpace]

/-- With so much fuel, values are read from what is written for them, up to what follows. -/
def ReadsValues (l : Limits) (lay : Layout) (fuel : Nat) : Prop :=
  ∀ {levels j} depth rest, Readable l levels j → EndsNumber rest →
  2 * ((textAt lay depth j).toList ++ rest).length + 1 ≤ fuel →
  value l fuel levels ((textAt lay depth j).toList ++ rest) =
    .ok (regained j, rest)

def ReadsItems (l : Limits) (lay : Layout) (fuel : Nat) : Prop := ∀ {levels j items} depth outer rest,
  (∀ v ∈ j :: items, Readable l levels v) →
  2 * ((textAt lay depth j).toList ++
    (more lay depth (itemTexts lay depth items) ++
      (lay.margin outer ++ ']' :: rest))).length + 2 ≤ fuel →
  itemList l fuel levels ((textAt lay depth j).toList ++
    (more lay depth (itemTexts lay depth items) ++
      (lay.margin outer ++ ']' :: rest))) = .ok (regainedItems (j :: items), rest)

def ReadsMembers (l : Limits) (lay : Layout) (fuel : Nat) : Prop := ∀ {levels k j ms} depth outer rest,
  (∀ m ∈ (k, j) :: ms, l.Takes m.1.toList ∧ Readable l levels m.2) →
  2 * (memberText lay depth k j ++ (more lay depth (memberTexts lay depth ms) ++
    (lay.margin outer ++ '\x7d' :: rest))).length + 2 ≤ fuel →
  memberList l fuel levels (memberText lay depth k j ++
    (more lay depth (memberTexts lay depth ms) ++
      (lay.margin outer ++ '\x7d' :: rest))) = .ok (regainedMembers ((k, j) :: ms), rest)

theorem ReadsItems.array (hitems : ReadsItems l lay fuel) {items : List Json}
    (h : ∀ v ∈ items, Readable l levels v)
    (hfuel : 2 * ((textAt lay depth (.arr items)).toList ++ rest).length + 1 ≤ fuel + 1) :
    value l (fuel + 1) (levels + 1)
      ((textAt lay depth (.arr items)).toList ++ rest) =
        .ok (regained (.arr items), rest) := by
  cases items with
  | nil =>
    simp [textAt, itemTexts, bracketed, value, regained, regainedItems, skipSpace, isSpace]
    rfl
  | cons j items =>
    have hlist : (textAt lay depth (.arr (j :: items))).toList ++ rest =
        '[' :: (lay.margin (depth + 1) ++ ((textAt lay (depth + 1) j).toList ++
          (more lay (depth + 1) (itemTexts lay (depth + 1) items) ++
            (lay.margin depth ++ ']' :: rest)))) := by
      rw [textAt, itemTexts, bracketed_cons]
      simp
    rw [hlist] at hfuel ⊢
    have hread := hitems (depth + 1) depth rest h (by
      simp only [List.length_cons, List.length_append] at hfuel ⊢
      omega)
    obtain ⟨c, cs, hcs, _, hclose, _⟩ := text_head lay (depth + 1) j
    rw [value]
    simp only
    rw [skipSpace_margin, skipSpace_text]
    rw [hcs, List.cons_append] at hread ⊢
    split
    · next heq => exact absurd (List.cons.inj heq).1 hclose
    · rw [hread]
      rfl

theorem ReadsMembers.object (hmembers : ReadsMembers l lay fuel) {ms : List (String × Json)}
    (h : ∀ m ∈ ms, l.Takes m.1.toList ∧ Readable l levels m.2)
    (hfuel : 2 * ((textAt lay depth (.obj ms)).toList ++ rest).length + 1 ≤ fuel + 1) :
    value l (fuel + 1) (levels + 1)
      ((textAt lay depth (.obj ms)).toList ++ rest) = .ok (regained (.obj ms), rest) := by
  cases ms with
  | nil =>
    simp [textAt, memberTexts, bracketed, value, regained, regainedMembers, skipSpace, isSpace,
      members]
    rfl
  | cons m ms =>
    obtain ⟨k, j⟩ := m
    obtain ⟨q, hq, htext⟩ := memberTexts_cons lay (depth + 1) k j ms
    have hlist : (textAt lay depth (.obj ((k, j) :: ms))).toList ++ rest =
        '\x7b' :: (lay.margin (depth + 1) ++ (memberText lay (depth + 1) k j ++
          (more lay (depth + 1) (memberTexts lay (depth + 1) ms) ++
            (lay.margin depth ++ '\x7d' :: rest)))) := by
      rw [textAt, hq, bracketed_cons, htext]
      simp
    rw [hlist] at hfuel ⊢
    have hread := hmembers (depth + 1) depth rest h (by
      simp only [List.length_cons, List.length_append] at hfuel ⊢
      omega)
    rw [value]
    simp only
    rw [skipSpace_margin, memberText_skipSpace]
    rw [memberText, List.append_assoc, quoted_append] at hread ⊢
    simp only [hread]
    rfl

theorem readsValues_succ (hitems : ReadsItems l lay fuel)
    (hmembers : ReadsMembers l lay fuel) : ReadsValues l lay (fuel + 1) := by
  intro levels j depth rest h hrest hfuel
  have hnumber : ∀ {cs : List Char}, (∃ c cs', cs = c :: cs' ∧ StartsNumber c) →
      ∀ c ∈ (cs ++ rest).head?, c ≠ '[' ∧ c ≠ '\x7b' := by
    rintro _ ⟨c, cs, rfl, hc⟩ c' hc'
    cases hc'
    have hout := hc.notMem
    simp only [List.mem_cons, List.not_mem_nil, or_false, not_or] at hout
    exact ⟨hout.1, hout.2.1⟩
  cases h with
  | null =>
    rw [textAt, value_eq_scalar (by simp)]
    exact scalar_null
  | bool b =>
    rw [textAt, value_eq_scalar (by cases b <;> simp)]
    exact scalar_bool b
  | @int _ n hn =>
    rw [textAt, value_eq_scalar (hnumber (toString_head n))]
    exact scalar_int hn hrest
  | float x hl =>
    rw [textAt, value_eq_scalar (hnumber (numberText_head x))]
    exact scalar_float x hl hrest
  | @str _ s hs =>
    have htext : textAt lay depth (.str s) = quotedText lay.ascii s := rfl
    rw [htext] at hfuel ⊢
    rw [value_eq_scalar (by simp [quoted_append])]
    exact scalar_quoted hs (by omega)
  | arr h => exact hitems.array h hfuel
  | obj hk h => exact hmembers.object (fun m hm => ⟨hk m hm, h m hm⟩) hfuel

theorem readsItems_succ (hvalue : ReadsValues l lay fuel)
    (hitems : ReadsItems l lay fuel) : ReadsItems l lay (fuel + 1) := by
  intro levels j items depth outer rest h hfuel
  have hj := h j List.mem_cons_self
  rw [itemList, hvalue depth _ hj (endsNumber_more _ _ _ _ (by decide)) (by omega)]
  cases items with
  | nil =>
    simp only [itemTexts, more, List.flatMap_nil, List.nil_append, Bind.bind, Except.bind]
    rw [skipSpace_margin, skipSpace_of_head (by simp [isSpace])]
    rfl
  | cons j' items =>
    have hmore := hitems depth outer rest
      (fun v hv => h v (List.mem_cons_of_mem _ hv)) (by
        simp only [itemTexts, more, List.flatMap_cons, List.length_append, List.length_cons] at hfuel ⊢
        omega)
    simp only [itemTexts, more, List.flatMap_cons, List.cons_append, List.append_assoc, Bind.bind,
      Except.bind] at hmore ⊢
    rw [skipSpace_of_head (by simp [isSpace])]
    simp only
    rw [skipSpace_gap, skipSpace_text, hmore]
    rfl

theorem readsMembers_succ (hvalue : ReadsValues l lay fuel)
    (hmembers : ReadsMembers l lay fuel) : ReadsMembers l lay (fuel + 1) := by
  intro levels k j ms depth outer rest h hfuel
  obtain ⟨hk, hj⟩ : l.Takes k.toList ∧ Readable l levels j := h (k, j) List.mem_cons_self
  -- the first member is read up to this tail, whatever it is
  generalize htail : more lay depth (memberTexts lay depth ms) ++
    (lay.margin outer ++ '\x7d' :: rest) = tail at hfuel ⊢
  have hends : EndsNumber tail := htail ▸ endsNumber_more _ _ _ _ (by decide)
  have hlen := length_textChars lay.ascii k.toList
  simp only [memberText, List.append_assoc, List.cons_append, List.length_append,
    List.length_cons] at hfuel
  have hbody : ∀ whole, textBody l whole fuel (k.toList.flatMap (charText lay.ascii) ++ '"' ::
      ':' :: ' ' :: ((textAt lay depth j).toList ++ tail)) = .ok (paired k.toList,
        ':' :: ' ' :: ((textAt lay depth j).toList ++ tail)) := by
    intro whole
    exact textBody_quoted lay.ascii hk whole (by
      simp only [List.length_append, List.length_cons]
      omega)
  rw [memberText, List.append_assoc, quoted_append, memberList]
  simp only [List.cons_append, hbody, Bind.bind, Except.bind]
  rw [skipSpace_of_head (by simp [isSpace])]
  simp only
  have hblank : skipSpace (' ' :: ((textAt lay depth j).toList ++ tail)) =
      (textAt lay depth j).toList ++ tail :=
    (List.dropWhile_cons_of_pos rfl).trans (skipSpace_text lay depth j tail)
  rw [hblank, hvalue depth tail hj hends (by
    simp only [List.length_append]
    omega)]
  subst htail
  cases ms with
  | nil =>
    simp only [memberTexts, more, List.flatMap_nil, List.nil_append]
    rw [skipSpace_margin, skipSpace_of_head (by simp [isSpace])]
    rfl
  | cons m ms =>
    obtain ⟨k', j'⟩ := m
    obtain ⟨q, hq, htext⟩ := memberTexts_cons lay depth k' j' ms
    have hmore := hmembers depth outer rest
      (fun m hm => h m (List.mem_cons_of_mem _ hm))
      (by
        simp only [hq, more, List.flatMap_cons, List.length_append, List.length_cons, htext] at hfuel ⊢
        omega)
    simp only [hq, more, List.flatMap_cons, List.cons_append, List.append_assoc, htext] at hmore ⊢
    rw [skipSpace_of_head (by simp [isSpace])]
    simp only
    rw [skipSpace_gap, memberText_skipSpace, hmore]
    rfl

theorem reads_text (l : Limits) (lay : Layout) (fuel : Nat) : ReadsValues l lay fuel ∧
    ReadsItems l lay fuel ∧ ReadsMembers l lay fuel := by
  induction fuel with
  | zero =>
    refine ⟨?_, ?_, ?_⟩
    · intro levels j depth rest _ _ hfuel
      omega
    · intro levels j items depth outer rest _ hfuel
      omega
    · intro levels k j ms depth outer rest _ hfuel
      omega
  | succ fuel ih =>
    obtain ⟨hvalue, hitems, hmembers⟩ := ih
    exact ⟨readsValues_succ hitems hmembers, readsItems_succ hvalue hitems,
      readsMembers_succ hvalue hmembers⟩

theorem parse_readable {j : Json} (lay : Layout) (h : Readable l l.depth j) :
    parse l (render lay j) = .ok (regained j) := by
  have hread := (reads_text l lay (2 * (render lay j).toList.length + 2)).1 0 [] h
    (by simp [EndsNumber]) (by simp [render])
  have hskip := skipSpace_text lay 0 j []
  obtain ⟨c, cs, hcs, _, _, hmark⟩ := text_head lay 0 j
  rw [List.append_nil] at hread hskip
  have hdocument : document l (render lay j).toList = .ok (regained j) := by
    rw [render] at hread ⊢
    rw [document, hskip, hread, hcs, if_neg (by simpa using hmark)]
    rfl
  rw [parse, hdocument]
  rfl

theorem parse_stacked {j : Json} (ascii : Bool) (h : Sized digits Limits.general.depth j) :
    parse (.upTo digits) (render (.stacked ascii) j) = .ok (regained j) :=
  parse_readable (.stacked ascii) h.readable

theorem parse_readable_more {ms : List (String × Json)} (lay : Layout) (h : Readable l l.depth (.obj ms))
    {more : String} (hmore : more.toList = c :: cs) (hc : isSpace c = false) :
    ∃ e, parse l (render lay (.obj ms) ++ more) = .error e := by
  have htext : (render lay (.obj ms) ++ more).toList =
      (textAt lay 0 (.obj ms)).toList ++ c :: cs := by
    rw [String.toList_append, hmore]
    rfl
  have hread : ∀ fuel, 2 * ((textAt lay 0 (.obj ms)).toList ++ c :: cs).length + 1 ≤ fuel + 1 →
      value l (fuel + 1) l.depth ((textAt lay 0 (.obj ms)).toList ++ c :: cs) =
        .ok (regained (.obj ms), c :: cs) := by
    intro fuel hfuel
    generalize l.depth = levels at h ⊢
    cases h with
    | obj hk hms =>
      exact ReadsMembers.object (reads_text l lay fuel).2.2 (fun m hm => ⟨hk m hm, hms m hm⟩) hfuel
  have hskip := skipSpace_text lay 0 (.obj ms) (c :: cs)
  obtain ⟨first, tail, hcs, _, _, hmark⟩ := text_head lay 0 (.obj ms)
  have hrest : skipSpace (c :: cs) = c :: cs := skipSpace_of_head (by simpa using hc)
  have hdocument : ∃ stop, document l
      ((textAt lay 0 (.obj ms)).toList ++ c :: cs) = .error stop := by
    refine ⟨(.extraData, (c :: cs).length), ?_⟩
    rw [document, hskip, hread _ (by omega), hcs, List.cons_append, if_neg (by simpa using hmark)]
    simp only [Bind.bind, Except.bind, hrest]
    rfl
  obtain ⟨stop, hstop⟩ := hdocument
  rw [parse, htext, hstop]
  exact ⟨_, rfl⟩

theorem parse_object_more {ms : List (String × Json)} (ascii : Bool)
    (h : Sized digits Limits.general.depth (.obj ms)) {more : String} {c : Char} {cs : List Char}
    (hmore : more.toList = c :: cs) (hc : isSpace c = false) :
    ∃ e, parse (.upTo digits) (render (.stacked ascii) (.obj ms) ++ more) = .error e :=
  parse_readable_more (.stacked ascii) h.readable hmore hc

/-- With well-formed texts it is the same, with one member for each key. -/
theorem parse_render {j : Json} (h : Writable Limits.general.depth j) :
    parse .general (render .plainBlock j) = .ok (settled j) :=
  h.regained ▸ parse_stacked false (h.sized (Nat.le_refl _))

end JudgedLint.Json
