/-!
# Maps in insertion order

A map from names to values that lists its names in the order of their first
insertion. Inserting under a present name changes the value and keeps the place.

Results:

* `keys_insert`: the names after an insertion.
* `get?_insert`: what a name maps to after an insertion.
* `get?_erase`: what a name maps to after an erasure.
-/

namespace FuzzyInference

/-! ## Association lists -/

/-- The value of the first entry with a given name. -/
def lookup? {β : Type} (name : String) : List (String × β) → Option β
  | [] => none
  | (n, v) :: rest => if n = name then some v else lookup? name rest

/-- Replaces the value of the entry with a given name, or adds an entry at the
    end. -/
def upsert {β : Type} (name : String) (value : β) : List (String × β) → List (String × β)
  | [] => [(name, value)]
  | (n, v) :: rest => if n = name then (name, value) :: rest else (n, v) :: upsert name value rest

/-- Removes the entry with a given name. -/
def dropName {β : Type} (name : String) (entries : List (String × β)) : List (String × β) :=
  entries.filter fun e => decide (e.1 ≠ name)

section

variable {β : Type}

theorem map_fst_upsert (name : String) (value : β) (entries : List (String × β)) :
    (upsert name value entries).map (·.1) =
      if name ∈ entries.map (·.1) then entries.map (·.1) else entries.map (·.1) ++ [name] := by
  induction entries with
  | nil => simp [upsert]
  | cons e rest ih =>
    obtain ⟨n, v⟩ := e
    by_cases h : n = name
    · simp [upsert, h]
    · have h' : name ≠ n := fun e => h e.symm
      by_cases hm : name ∈ rest.map (·.1) <;> simp_all [upsert]

theorem nodup_upsert {name : String} {value : β} {entries : List (String × β)}
    (h : (entries.map (·.1)).Nodup) : ((upsert name value entries).map (·.1)).Nodup := by
  rw [map_fst_upsert]
  split
  · exact h
  · rename_i hm
    rw [List.nodup_append]
    refine ⟨h, by simp, ?_⟩
    intro a ha b hb hab
    rw [List.mem_singleton] at hb
    exact hm (hb ▸ hab ▸ ha)

theorem nodup_dropName {name : String} {entries : List (String × β)}
    (h : (entries.map (·.1)).Nodup) : ((dropName name entries).map (·.1)).Nodup :=
  List.Nodup.sublist (List.Sublist.map _ List.filter_sublist) h

theorem lookup?_upsert (name key : String) (value : β) (entries : List (String × β)) :
    lookup? key (upsert name value entries) =
      if name = key then some value else lookup? key entries := by
  induction entries with
  | nil => by_cases h : name = key <;> simp [upsert, lookup?, h]
  | cons e rest ih =>
    obtain ⟨n, v⟩ := e
    by_cases hn : n = name
    · subst hn
      by_cases h : n = key <;> simp [upsert, lookup?, h]
    · by_cases hk : n = key
      · subst hk
        have : name ≠ n := fun e => hn e.symm
        simp [upsert, lookup?, hn, this]
      · simp [upsert, lookup?, hn, hk, ih]

theorem lookup?_dropName (name key : String) (entries : List (String × β)) :
    lookup? key (dropName name entries) = if name = key then none else lookup? key entries := by
  induction entries with
  | nil => simp [dropName, lookup?]
  | cons e rest ih =>
    obtain ⟨n, v⟩ := e
    have ih' : lookup? key (rest.filter fun e => decide (e.1 ≠ name)) =
        if name = key then none else lookup? key rest := ih
    by_cases hn : n = name
    · subst hn
      by_cases hk : n = key
      · simp_all [dropName]
      · simp_all [dropName, lookup?]
    · by_cases hk : n = key
      · have : name ≠ key := fun e => hn (hk.trans e.symm)
        simp_all [dropName, lookup?]
      · simp_all [dropName, lookup?]

end

/-! ## The map -/

/-- Entries with distinct names, in insertion order. -/
structure OrderedMap (β : Type) where
  entries : List (String × β)
  nodup : (entries.map (·.1)).Nodup

namespace OrderedMap

variable {β γ : Type}

/-- The map with no entries. -/
def empty : OrderedMap β := ⟨[], by simp⟩

instance : Inhabited (OrderedMap β) := ⟨empty⟩

/-- The names, in insertion order. -/
def keys (m : OrderedMap β) : List String := m.entries.map (·.1)

/-- The values, in insertion order. -/
def values (m : OrderedMap β) : List β := m.entries.map (·.2)

/-- The number of entries. -/
def size (m : OrderedMap β) : Nat := m.entries.length

/-- Whether there are no entries. -/
def isEmpty (m : OrderedMap β) : Bool := m.entries.isEmpty

/-- The value of a name. -/
def get? (m : OrderedMap β) (name : String) : Option β := lookup? name m.entries

/-- Whether a name has a value. -/
def contains (m : OrderedMap β) (name : String) : Bool := (m.get? name).isSome

/-- Sets the value of a name, keeping the place of a name that is present. -/
def insert (m : OrderedMap β) (name : String) (value : β) : OrderedMap β :=
  ⟨upsert name value m.entries, nodup_upsert m.nodup⟩

/-- Removes a name, keeping the order of the others. -/
def erase (m : OrderedMap β) (name : String) : OrderedMap β :=
  ⟨dropName name m.entries, nodup_dropName m.nodup⟩

/-- Inserts entries one after the other. -/
def ofList (entries : List (String × β)) : OrderedMap β :=
  entries.foldl (fun m e => m.insert e.1 e.2) empty

/-- Whether two maps have the same names with matching values, in any order. -/
def agrees (eq : β → β → Bool) (m n : OrderedMap β) : Bool :=
  m.size == n.size && m.entries.all fun (name, v) =>
    match n.get? name with
    | some w => eq v w
    | none => false

theorem keys_insert (m : OrderedMap β) (name : String) (value : β) :
    (m.insert name value).keys = if name ∈ m.keys then m.keys else m.keys ++ [name] :=
  map_fst_upsert name value m.entries

theorem get?_insert (m : OrderedMap β) (name key : String) (value : β) :
    (m.insert name value).get? key = if name = key then some value else m.get? key :=
  lookup?_upsert name key value m.entries

theorem get?_erase (m : OrderedMap β) (name key : String) :
    (m.erase name).get? key = if name = key then none else m.get? key :=
  lookup?_dropName name key m.entries

end OrderedMap

end FuzzyInference
