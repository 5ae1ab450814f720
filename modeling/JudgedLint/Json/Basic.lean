/-! Values of the JSON data model.

Objects keep the order of their members, and whole numbers and floats are told apart. -/
namespace JudgedLint

inductive Json where
  | null
  | bool (b : Bool)
  | int (n : Int)
  | float (x : Float)
  | str (s : String)
  | arr (items : List Json)
  | obj (members : List (String × Json))
  deriving Inhabited

namespace Json

/-- The value of the last pair with a key takes the place of the first. -/
def put {α : Type} (key : String) (value : α) : List (String × α) → List (String × α)
  | [] => [(key, value)]
  | (k, v) :: rest => if k == key then (k, value) :: rest else (k, v) :: put key value rest

/-- One member per key, in the order in which the keys first stand. -/
def members {α : Type} (pairs : List (String × α)) : List (String × α) :=
  pairs.foldl (fun acc p => put p.1 p.2 acc) []

def get? (key : String) : Json → Option Json
  | .obj ms => ms.lookup key
  | _ => none

/-- The member of an object; `null` where there is none. -/
def get (key : String) (j : Json) : Json := (j.get? key).getD .null

def ofOption {α : Type} (f : α → Json) : Option α → Json
  | none => .null
  | some a => f a

def isNull : Json → Bool
  | .null => true
  | _ => false

def str? : Json → Option String
  | .str s => some s
  | _ => none

def int? : Json → Option Int
  | .int n => some n
  | _ => none

def nat? : Json → Option Nat
  | .int n => some n.toNat
  | _ => none

def bool? : Json → Option Bool
  | .bool b => some b
  | _ => none

def items : Json → List Json
  | .arr xs => xs
  | _ => []

def pairs : Json → List (String × Json)
  | .obj ms => ms
  | _ => []

def texts (j : Json) : List String := j.items.filterMap str?

def nat (n : Nat) : Json := .int n

end Json
end JudgedLint
