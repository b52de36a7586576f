import FuzzyInference.Scalar.Basic

/-!
# JSON values

The values of JSON documents over a scalar type. Whole numbers are kept apart
from scalars, and objects keep the order and the repetitions of their members.

A piece of text can be well formed and still have no value: a number beyond the
largest scalar, half of a surrogate pair, or nesting beyond the limit. It is
kept as `unreadable`, because a document may hold it where nobody looks.
-/

namespace FuzzyInference

/-- A JSON value. -/
inductive Json (α : Type) where
  | null
  | bool (b : Bool)
  | int (n : Int)
  | float (x : α)
  | string (s : String)
  | array (items : List (Json α))
  | object (members : List (String × Json α))
  | unreadable

namespace Json

variable {α : Type}

mutual

/-- How deep arrays and objects are nested. -/
def depth : Json α → Nat
  | .array items => depthOfItems items + 1
  | .object members => depthOfMembers members + 1
  | _ => 0

/-- How deep the items of an array are nested. -/
def depthOfItems : List (Json α) → Nat
  | [] => 0
  | j :: js => max (depth j) (depthOfItems js)

/-- How deep the members of an object are nested. -/
def depthOfMembers : List (String × Json α) → Nat
  | [] => 0
  | (_, j) :: rest => max (depth j) (depthOfMembers rest)

end

mutual

/-- Whether every piece of a value can be read. -/
def readable : Json α → Bool
  | .unreadable => false
  | .array items => readableItems items
  | .object members => readableMembers members
  | _ => true

/-- Whether every piece of some items can be read. -/
def readableItems : List (Json α) → Bool
  | [] => true
  | j :: js => readable j && readableItems js

/-- Whether every piece of some members can be read. -/
def readableMembers : List (String × Json α) → Bool
  | [] => true
  | (_, j) :: rest => readable j && readableMembers rest

end

/-- The first member of a name. -/
def member? (name : String) : List (String × Json α) → Option (Json α)
  | [] => none
  | (n, j) :: rest => if n = name then some j else member? name rest

/-- The number of members of a name. -/
def countOf (name : String) (members : List (String × Json α)) : Nat :=
  members.countP fun e => e.1 == name

end Json

end FuzzyInference
