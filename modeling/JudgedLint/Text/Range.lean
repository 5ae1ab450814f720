/-! Membership of a code point in a sorted table of ranges. -/
namespace JudgedLint.Text

/-- Halves the stretch `[lo, hi)` of the table that can still hold the range of `n`. -/
def searchRanges (table : Array (Nat × Nat)) (n : Nat) : Nat → Nat → Nat → Bool
  | 0, _, _ => false
  | fuel + 1, lo, hi =>
    if hi ≤ lo then false
    else
      let mid := (lo + hi) / 2
      match table[mid]? with
      | none => false
      | some (first, last) =>
        if n < first then searchRanges table n fuel lo mid
        else if last < n then searchRanges table n fuel (mid + 1) hi
        else true

def inRanges (table : Array (Nat × Nat)) (n : Nat) : Bool :=
  searchRanges table n (table.size + 1) 0 table.size

end JudgedLint.Text
