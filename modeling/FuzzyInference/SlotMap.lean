/-!
# Slot maps

Values under keys that the map chooses. Each value gets a slot of its own behind
the ones before it, and the key is the number of the slot. The slot of a removed
value stays empty, so no key is given out twice.

Results:

* `get?_insert`, `get?_modify`, `get?_remove`: what a key leads to after a change.
-/

namespace FuzzyInference

/-- Slots by their keys; the ones of removed values are empty. -/
structure SlotMap (β : Type) where
  slots : List (Option β)

namespace SlotMap

variable {β : Type}

/-- The map with no slots. -/
def empty : SlotMap β := ⟨[]⟩

/-- The key that the next value gets. -/
def nextKey (m : SlotMap β) : Nat := m.slots.length

/-- The value of a key. -/
def get? (m : SlotMap β) (key : Nat) : Option β := m.slots[key]?.join

/-- Adds a value under the next key. -/
def insert (m : SlotMap β) (value : β) : SlotMap β := ⟨m.slots ++ [some value]⟩

/-- Changes the value of a key, if there is one. -/
def modify (m : SlotMap β) (key : Nat) (change : β → β) : SlotMap β :=
  ⟨m.slots.modify key (Option.map change)⟩

/-- Empties the slot of a key. -/
def remove (m : SlotMap β) (key : Nat) : SlotMap β := ⟨m.slots.set key none⟩

/-- Takes the values of keys out, one after the other. -/
def drain (m : SlotMap β) : List Nat → List β
  | [] => []
  | key :: keys => (m.get? key).toList ++ drain (m.remove key) keys

theorem get?_insert (m : SlotMap β) (value : β) (key : Nat) :
    (m.insert value).get? key = if m.nextKey = key then some value else m.get? key := by
  unfold get? insert nextKey
  rw [List.getElem?_append]
  by_cases hlt : key < m.slots.length
  · rw [if_pos hlt, if_neg (Nat.ne_of_gt hlt)]
  · rw [if_neg hlt]
    by_cases heq : m.slots.length = key
    · simp [heq]
    · have hbehind : ¬ key - m.slots.length < 1 := by omega
      rw [if_neg heq, List.getElem?_eq_none (Nat.not_lt.1 hbehind),
        List.getElem?_eq_none (Nat.not_lt.1 hlt)]

theorem get?_modify (m : SlotMap β) (key : Nat) (change : β → β) (other : Nat) :
    (m.modify key change).get? other =
      if key = other then (m.get? other).map change else m.get? other := by
  unfold get? modify
  rw [List.getElem?_modify]
  cases m.slots[other]? with
  | none => simp
  | some slot => by_cases h : key = other <;> simp [h]

theorem get?_remove (m : SlotMap β) (key other : Nat) :
    (m.remove key).get? other = if key = other then none else m.get? other := by
  unfold get? remove
  rw [List.getElem?_set]
  by_cases h : key = other
  · rw [if_pos h, if_pos h]
    split <;> rfl
  · rw [if_neg h, if_neg h]

theorem lt_nextKey {m : SlotMap β} {key : Nat} {value : β} (h : m.get? key = some value) :
    key < m.nextKey := by
  refine Nat.lt_of_not_le fun hle => ?_
  rw [get?, List.getElem?_eq_none hle] at h
  cases h

/-! ## Keys that are given out -/

theorem nextKey_insert (m : SlotMap β) (value : β) : (m.insert value).nextKey = m.nextKey + 1 := by
  simp [nextKey, insert]

theorem nextKey_modify (m : SlotMap β) (key : Nat) (change : β → β) :
    (m.modify key change).nextKey = m.nextKey := by
  simp [nextKey, modify]

theorem nextKey_remove (m : SlotMap β) (key : Nat) : (m.remove key).nextKey = m.nextKey := by
  simp [nextKey, remove]

end SlotMap

end FuzzyInference
