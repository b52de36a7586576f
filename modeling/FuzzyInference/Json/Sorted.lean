import FuzzyInference.Json.Basic

/-!
# The order of members

The members of an object can be put into an order of their names, at every level
of a value. A text keeps the order in which its members are written. A document
that is handed on as a value does not: its members are sorted by name.

Results:

* `arrange_array` and `arrange_object`: a value is arranged part by part.
-/

namespace FuzzyInference

/-- Entries in an order of their names. Entries that do not differ in it stay as
    they are. -/
def arrangeEntries {β : Type} (before : String → String → Bool) (entries : List (String × β)) :
    List (String × β) :=
  entries.mergeSort fun e f => before e.1 f.1

namespace Json

variable {α : Type}

mutual

/-- A value with the members of every object in an order of their names. -/
def arrange (before : String → String → Bool) : Json α → Json α
  | .array items => .array (arrangeItems before items)
  | .object members => .object (arrangeEntries before (arrangeMembers before members))
  | j => j

/-- Items with the members of their objects in an order of their names. -/
def arrangeItems (before : String → String → Bool) : List (Json α) → List (Json α)
  | [] => []
  | j :: js => arrange before j :: arrangeItems before js

/-- Members with the members of their own objects in an order of their names. -/
def arrangeMembers (before : String → String → Bool) :
    List (String × Json α) → List (String × Json α)
  | [] => []
  | (name, j) :: rest => (name, arrange before j) :: arrangeMembers before rest

end

/-- A value with the members of every object sorted by their names (the engine's
    `encode`). -/
def sorted (j : Json α) : Json α := j.arrange fun m n => decide (m ≤ n)

variable {before : String → String → Bool}

theorem arrange_array (items : List (Json α)) :
    (array items).arrange before = .array (items.map (arrange before)) := by
  have hitems : arrangeItems before items = items.map (arrange before) := by
    induction items with
    | nil => rfl
    | cons j js ih => rw [arrangeItems, ih, List.map_cons]
  rw [arrange, hitems]

theorem arrange_object (members : List (String × Json α)) :
    (object members).arrange before =
      .object (arrangeEntries before (members.map fun e => (e.1, e.2.arrange before))) := by
  have hmembers : arrangeMembers before members =
      members.map fun e => (e.1, e.2.arrange before) := by
    induction members with
    | nil => rfl
    | cons e rest ih => rw [arrangeMembers, ih, List.map_cons]
  rw [arrange, hmembers]

end Json

end FuzzyInference
