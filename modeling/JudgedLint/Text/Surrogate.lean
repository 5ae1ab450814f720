/-! Surrogates that stand alone in a text.

An escape can name one half of a surrogate pair without the other. No character is a surrogate, so
a text holds a stand-in for it: the character of the last private-use plane that is a whole number
of planes further on. Every writer turns a stand-in back into the surrogate, and whatever takes only
well-formed texts refuses it. -/
namespace JudgedLint.Text

def isHighSurrogate (n : Nat) : Bool := 0xD800 ≤ n && n ≤ 0xDBFF

def isLowSurrogate (n : Nat) : Bool := 0xDC00 ≤ n && n ≤ 0xDFFF

def isSurrogate (n : Nat) : Bool := 0xD800 ≤ n && n ≤ 0xDFFF

/-- The distance between a surrogate and its stand-in. -/
def standInDistance : Nat := 0x100000

/-- The character for a code point: itself, or the stand-in of a surrogate. -/
def charOfCode (n : Nat) : Char :=
  if isSurrogate n then Char.ofNat (n + standInDistance) else Char.ofNat n

def isStandIn (c : Char) : Bool :=
  standInDistance ≤ c.toNat && isSurrogate (c.toNat - standInDistance)

def codeOf (c : Char) : Nat := if isStandIn c then c.toNat - standInDistance else c.toNat

/-- No surrogate stands alone. -/
def isWellFormed (s : String) : Bool := !s.toList.any isStandIn

/-- The text with three replacement characters for each surrogate that stands alone. -/
def replaceSurrogates (s : String) : String :=
  String.ofList (s.toList.flatMap fun c => if isStandIn c then List.replicate 3 '\uFFFD' else [c])

theorem codeOf_charOfCode_of_isSurrogate (n : Nat) (h : isSurrogate n = true) :
    codeOf (charOfCode n) = n := by
  have hn : 0xD800 ≤ n ∧ n ≤ 0xDFFF := by simpa [isSurrogate] using h
  have hv : (n + standInDistance).isValidChar := .inr (by simp only [standInDistance]; omega)
  have ht : (Char.ofNat (n + standInDistance)).toNat = n + standInDistance := by
    rw [Char.ofNat, dif_pos hv]; rfl
  simp [codeOf, charOfCode, isStandIn, h, ht]

end JudgedLint.Text
