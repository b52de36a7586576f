import FuzzyInference.Json.Basic
import FuzzyInference.OrderedMap

/-!
# Forms of documents

Documents are built from a few forms. A structure is an object with named
fields, or an array of its fields in order; fields that nobody asks for are
ignored, and a field that is asked for may stand only once. A union names its
case in a tag field, or as the first item of an array. A choice is a name, or an
object with the name as its only member.

A union is read as a whole before its case is known, so nothing in it may be
unreadable. Inside of another union the tag may also be the number of the case.
-/

namespace FuzzyInference.Json

variable {α : Type}

/-! ## Scalars -/

section

variable [Scalar α]

/-- A number; whole numbers are scalars too. -/
def toScalar? : Json α → Option α
  | .int n => some (Scalar.ofInt n)
  | .float x => some x
  | _ => none

/-- The document of a scalar, which has none if it is not finite. -/
def ofScalar (x : α) : Json α := if Scalar.isFinite x then .float x else .null

end

/-- A whole number below a bound. -/
def toNat? (bound : Nat) : Json α → Option Nat
  | .int n => if 0 ≤ n ∧ n.toNat < bound then some n.toNat else none
  | _ => none

/-- A truth value. -/
def toBool? : Json α → Option Bool
  | .bool b => some b
  | _ => none

/-- A string. -/
def toString? : Json α → Option String
  | .string s => some s
  | _ => none

/-- The items of an array. -/
def toItems? : Json α → Option (List (Json α))
  | .array items => some items
  | _ => none

/-- An array whose items are read one by one. -/
def toList? {β : Type} (read? : Json α → Option β) (j : Json α) : Option (List β) := do
  (← j.toItems?).mapM read?

/-- An object whose members are read one by one, in order. -/
def toMap? {β : Type} (read? : Json α → Option β) : Json α → Option (OrderedMap β)
  | .object members => do
    let entries ← members.mapM fun (name, j) => do return (name, ← read? j)
    return .ofList entries
  | _ => none

/-- The document of a map. -/
def ofMap {β : Type} (write : β → Json α) (m : OrderedMap β) : Json α :=
  .object (m.entries.map fun (name, v) => (name, write v))

/-! ## Structures -/

/-- The fields of a structure by their names: each one if it is there. -/
def fields? (names : List String) : Json α → Option (List (Option (Json α)))
  | .object members =>
    if names.all fun n => decide (countOf n members ≤ 1) then
      some (names.map fun n => member? n members)
    else none
  | .array items =>
    if items.length ≤ names.length then
      some (items.map some ++ List.replicate (names.length - items.length) none)
    else none
  | _ => none

/-- A field that has to be there. -/
def required {β : Type} (read? : Json α → Option β) : Option (Json α) → Option β
  | some j => read? j
  | none => none

/-- A field with a value of its own when it is not there. -/
def withDefault {β : Type} (value : β) (read? : Json α → Option β) : Option (Json α) → Option β
  | some j => read? j
  | none => some value

/-- A field that may be missing or `null`. -/
def optional {β : Type} (read? : Json α → Option β) : Option (Json α) → Option (Option β)
  | none => some none
  | some .null => some none
  | some j => (read? j).map some

/-! ## Unions -/

/-- Whether a union is read from text or inside of another union. -/
inductive Place where
  | outside
  | inside
  deriving DecidableEq

/-- The case that a tag names. -/
def case? (place : Place) (cases : List String) : Json α → Option String
  | .string s => if s ∈ cases then some s else none
  | .int n => if place = .inside ∧ 0 ≤ n then cases[n.toNat]? else none
  | _ => none

/-- The case of a union and what it holds. -/
def tagged? (place : Place) (tag : String) (cases : List String) (j : Json α) :
    Option (String × Json α) :=
  if place = .outside ∧ j.readable = false then none
  else match j with
    | .object members =>
      if countOf tag members = 1 then do
        let c ← case? place cases (← member? tag members)
        return (c, .object (members.filter fun e => !(e.1 == tag)))
      else none
    | .array (first :: rest) => do
      let c ← case? place cases first
      return (c, .array rest)
    | _ => none

/-- The document of a case of a union. -/
def tagged (tag : String) (c : String) (members : List (String × Json α)) : Json α :=
  .object ((tag, .string c) :: members)

/-! ## Choices -/

/-- The name that a choice gives. `emptyToo` also takes an empty object as the value
    of the name. -/
def choice? (emptyToo : Bool) : Json α → Option String
  | .string s => some s
  | .object [(s, .null)] => some s
  | .object [(s, .object [])] => if emptyToo then some s else none
  | _ => none

end FuzzyInference.Json
