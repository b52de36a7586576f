import FuzzyInference.SlotMap
import FuzzyInference.Variable.Basic

/-!
# Variable stores

The input variables of a rule set, by name and by key, in insertion order. The
variables stand in a slot map, and an index leads from their names to their keys.
A variable gets its key when its name enters the store and keeps it until the
name is removed; keys are never given out again.

Results:

* `key?_add` and `key?_remove`: the key of a name after a change.
-/

namespace FuzzyInference

/-- Variables by key, and the keys of their names in insertion order (the engine's
    `Variables`). -/
structure VariableStore (α : Type) where
  slots : SlotMap (Variable α)
  index : OrderedMap Nat

namespace VariableStore

variable {α : Type}

/-- The store with no variables (the engine's `Variables.new`). -/
def empty : VariableStore α := ⟨.empty, .empty⟩

/-- The key of a name (the engine's `Variables.key`). -/
def key? (s : VariableStore α) (name : String) : Option Nat := s.index.get? name

/-- The variable of a key (the engine's `Variables.by_key`). -/
def byKey? (s : VariableStore α) (key : Nat) : Option (Variable α) := s.slots.get? key

/-- The variable of a name (the engine's `Variables.get`). -/
def get? (s : VariableStore α) (name : String) : Option (Variable α) := (s.key? name).bind s.byKey?

/-- Whether a name has a variable (the engine's `Variables.contains`). -/
def contains (s : VariableStore α) (name : String) : Bool := s.index.contains name

/-- The names of the variables, in insertion order (the engine's
    `Variables.names`). -/
def names (s : VariableStore α) : List String := s.index.keys

/-- The variables, in insertion order (the engine's `Variables.iter`). -/
def toList (s : VariableStore α) : List (Variable α) := s.index.values.filterMap s.byKey?

/-- The variables in insertion order, taken out of the store one after the other
    (within the engine's `Variables.into`). -/
def intoList (s : VariableStore α) : List (Variable α) := s.slots.drain s.index.values

/-- The number of variables (the engine's `Variables.len`). -/
def size (s : VariableStore α) : Nat := s.index.size

/-- Whether there are no variables (the engine's `Variables.is_empty`). -/
def isEmpty (s : VariableStore α) : Bool := s.index.isEmpty

/-- Adds a variable under its name, or replaces the one that is there (the engine's
    `Variables.add`). Gives its key too, which is the one of the variable that it
    replaces. -/
def insert (s : VariableStore α) (v : Variable α) : VariableStore α × Nat :=
  match s.key? v.name with
  | some key => ({ s with slots := s.slots.modify key fun _ => v }, key)
  | none => (⟨s.slots.insert v, s.index.insert v.name s.slots.nextKey⟩, s.slots.nextKey)

/-- Adds a variable under its name, or replaces the one that is there, without its
    key (the engine's `Variables.add`). -/
def add (s : VariableStore α) (v : Variable α) : VariableStore α := (s.insert v).1

/-- Removes the variable of a name and gives it; its key is gone for good (the
    engine's `Variables.remove`). -/
def extract (s : VariableStore α) (name : String) : VariableStore α × Option (Variable α) :=
  match s.key? name with
  | some key => (⟨s.slots.remove key, s.index.erase name⟩, s.slots.get? key)
  | none => (s, none)

/-- Removes the variable of a name (the engine's `Variables.remove`). -/
def remove (s : VariableStore α) (name : String) : VariableStore α := (s.extract name).1

/-- Changes the range of a variable in place (within the engine's
    `Variables.get_mut`). -/
def setRange (s : VariableStore α) (name : String) (min max : α) : VariableStore α :=
  match s.key? name with
  | some key => { s with slots := s.slots.modify key fun v => { v with min, max } }
  | none => s

/-- Adds variables one after the other to an empty store (the engine's
    `Variables.from_iter`). -/
def ofList (vs : List (Variable α)) : VariableStore α := vs.foldl add empty

theorem key?_add (s : VariableStore α) (v : Variable α) (name : String) :
    (s.add v).key? name = if v.name = name then some (s.insert v).2 else s.key? name := by
  unfold add insert
  split
  · rename_i key hkey
    show s.key? name = _
    split
    · rename_i hname
      rw [← hname, hkey]
    · rfl
  · exact OrderedMap.get?_insert _ _ _ _

theorem key?_remove (s : VariableStore α) (name other : String) :
    (s.remove name).key? other = if name = other then none else s.key? other := by
  unfold remove extract
  split
  · exact OrderedMap.get?_erase _ _ _
  · rename_i hkey
    split
    · rename_i hname
      rw [← hname, hkey]
    · rfl

/-- Whether two stores list matching variables in the same order (the engine's
    `Variables.eq`). -/
def same [Scalar α] (s t : VariableStore α) : Bool :=
  s.size == t.size && (s.toList.zip t.toList).all fun (v, w) => v.same w

end VariableStore

end FuzzyInference
