/-! Regular expressions over characters, and the words they match.

`Regex.ends` follows an expression through a text and collects every place where a match may end.
A place is the number of characters before it and no place is kept twice, so a repetition comes to
rest after at most as many rounds as there are characters. -/
namespace JudgedLint.Pattern

/-- A class of characters: single ones and ranges with both ends, or everything outside them. -/
structure CharClass where
  negated : Bool
  ranges : List (Char × Char)
  deriving DecidableEq, Repr

def CharClass.holds (k : CharClass) (c : Char) : Bool :=
  (k.ranges.any fun r => r.1 ≤ c && c ≤ r.2) != k.negated

inductive Regex where
  | empty
  | char (c : Char)
  /-- Any character but a line feed. -/
  | any
  | oneOf (k : CharClass)
  | seq (a b : Regex)
  | alt (a b : Regex)
  | star (a : Regex)
  deriving DecidableEq, Repr

/-- Puts a place among others, which are gone through from the front; `onward` goes on behind it.
Lists of places run from the last place to the first. -/
def mergePlace (i : Nat) (onward : List Nat → List Nat) : List Nat → List Nat
  | [] => i :: onward []
  | j :: old =>
    if i == j then i :: onward old
    else if j < i then i :: onward (j :: old)
    else j :: mergePlace i onward old

def mergePlaces : List Nat → List Nat → List Nat
  | [] => id
  | i :: new => mergePlace i (mergePlaces new)

/-- Keeps a place unless it is among those found, which are gone through from the front; `onward`
goes on behind it. -/
def newPlace (i : Nat) (onward : List Nat → List Nat) : List Nat → List Nat
  | [] => i :: onward []
  | j :: found =>
    if i == j then onward found
    else if j < i then i :: onward (j :: found)
    else newPlace i onward found

def newPlaces : List Nat → List Nat → List Nat
  | [] => fun _ => []
  | i :: new => newPlace i (newPlaces new)

def stepPlaces (text : Array Char) (p : Char → Bool) (places : List Nat) : List Nat :=
  places.filterMap fun i => text[i]?.bind fun c => if p c then some (i + 1) else none

/-- Repeats `step` on the places found last until it finds no new one. -/
def closePlaces (step : List Nat → List Nat) : Nat → List Nat → List Nat → List Nat
  | 0, _, found => found
  | fuel + 1, last, found =>
    let new := newPlaces (step last) found
    if new.isEmpty then found else closePlaces step fuel new (mergePlaces new found)

/-- Where in a text a match that starts at one of the places may end. -/
def Regex.ends (text : Array Char) : Regex → List Nat → List Nat
  | .empty, places => places
  | .char c, places => stepPlaces text (· == c) places
  | .any, places => stepPlaces text (· != '\n') places
  | .oneOf k, places => stepPlaces text k.holds places
  | .seq a b, places => b.ends text (a.ends text places)
  | .alt a b, places => mergePlaces (a.ends text places) (b.ends text places)
  | .star a, places => closePlaces (a.ends text) (text.size + 1) places places

/-- Whether the whole text is a match. -/
def Regex.accepts (r : Regex) (cs : List Char) : Bool :=
  (r.ends cs.toArray [0]).contains cs.length

inductive Regex.Matches : Regex → List Char → Prop where
  | empty : Matches .empty []
  | char (c : Char) : Matches (.char c) [c]
  | any (c : Char) (h : c ≠ '\n') : Matches .any [c]
  | oneOf (k : CharClass) (c : Char) (h : k.holds c = true) : Matches (.oneOf k) [c]
  | seq {a b u v} (hu : Matches a u) (hv : Matches b v) : Matches (.seq a b) (u ++ v)
  | altLeft {a b u} (h : Matches a u) : Matches (.alt a b) u
  | altRight {a b u} (h : Matches b u) : Matches (.alt a b) u
  | starNil {a} : Matches (.star a) []
  | starCons {a u v} (hu : Matches a u) (hv : Matches (.star a) v) : Matches (.star a) (u ++ v)

def Regex.sequence : List Regex → Regex
  | [] => .empty
  | r :: rs => .seq r (sequence rs)

def Regex.choice : List Regex → Regex
  | [] => .empty
  | [r] => r
  | r :: rs => .alt r (choice rs)

end JudgedLint.Pattern
