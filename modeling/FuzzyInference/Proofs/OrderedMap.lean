import FuzzyInference.OrderedMap
import Mathlib.Data.List.Basic

/-!
# Entries of maps in insertion order

The names of a map are distinct, so what a name maps to is the same thing as
the entry it stands in, and a new name is added behind all the others.

Results:

* `get?_eq_some_iff`: a name maps to the value of its entry.
* `contains_iff`: a map contains its names.
* `entries_insert`: the entries after a new name is inserted.
* `mem_keys_ofList` and `keys_ofList`: the names of a map that is made of entries.
* `get?_ofList`: what they map to.
* `ofList_entries`: the entries of a map make the map.
-/

namespace FuzzyInference

variable {β : Type} {name : String} {value : β}

/-! ## Association lists -/

theorem lookup?_eq_none_iff {entries : List (String × β)} :
    lookup? name entries = none ↔ name ∉ entries.map (·.1) := by
  induction entries with
  | nil => simp [lookup?]
  | cons e rest ih =>
    obtain ⟨n, v⟩ := e
    rw [lookup?, List.map_cons, List.mem_cons, not_or]
    by_cases h : n = name
    · rw [if_pos h]
      constructor
      · intro h'
        cases h'
      · rintro ⟨h', -⟩
        exact absurd h.symm h'
    · rw [if_neg h, ih]
      exact ⟨fun h' => ⟨fun e => h e.symm, h'⟩, fun h' => h'.2⟩

theorem mem_of_lookup? {entries : List (String × β)} (h : lookup? name entries = some value) :
    (name, value) ∈ entries := by
  induction entries with
  | nil => cases h
  | cons e rest ih =>
    obtain ⟨n, v⟩ := e
    rw [lookup?] at h
    split at h
    · rename_i hn
      rw [hn, Option.some.inj h]
      exact List.mem_cons_self
    · exact List.mem_cons_of_mem _ (ih h)

theorem lookup?_of_mem {entries : List (String × β)} (hnodup : (entries.map (·.1)).Nodup)
    (h : (name, value) ∈ entries) : lookup? name entries = some value := by
  induction entries with
  | nil => cases h
  | cons e rest ih =>
    obtain ⟨n, v⟩ := e
    rw [List.map_cons, List.nodup_cons] at hnodup
    rw [lookup?]
    rcases List.mem_cons.1 h with heq | hrest
    · rw [Prod.mk.injEq] at heq
      rw [if_pos heq.1.symm, heq.2]
    · have hn : n ≠ name := by
        rintro rfl
        exact hnodup.1 (List.mem_map.2 ⟨(n, value), hrest, rfl⟩)
      rw [if_neg hn]
      exact ih hnodup.2 hrest

theorem lookup?_append (entries entries' : List (String × β)) :
    lookup? name (entries ++ entries') = (lookup? name entries).or (lookup? name entries') := by
  induction entries with
  | nil => rfl
  | cons e rest ih =>
    rw [List.cons_append, lookup?, lookup?, ih]
    split <;> rfl

theorem upsert_of_not_mem {entries : List (String × β)} (h : name ∉ entries.map (·.1)) :
    upsert name value entries = entries ++ [(name, value)] := by
  induction entries with
  | nil => rfl
  | cons e rest ih =>
    obtain ⟨n, v⟩ := e
    rw [List.map_cons, List.mem_cons, not_or] at h
    have hn : n ≠ name := fun e => h.1 e.symm
    rw [upsert, if_neg hn, ih h.2, List.cons_append]

/-! ## The map -/

namespace OrderedMap

variable {m : OrderedMap β}

theorem get?_eq_some_iff : m.get? name = some value ↔ (name, value) ∈ m.entries :=
  ⟨mem_of_lookup?, lookup?_of_mem m.nodup⟩

theorem get?_eq_none_iff : m.get? name = none ↔ name ∉ m.keys := lookup?_eq_none_iff

theorem contains_iff : m.contains name = true ↔ name ∈ m.keys := by
  rw [contains, ← not_iff_not, Bool.not_eq_true, Option.isSome_eq_false_iff,
    Option.isNone_iff_eq_none]
  exact get?_eq_none_iff

theorem entries_insert (h : name ∉ m.keys) :
    (m.insert name value).entries = m.entries ++ [(name, value)] :=
  upsert_of_not_mem h

/-- Entries with new names are inserted in order behind the others. -/
theorem entries_foldl_insert {entries : List (String × β)}
    (h : ((m.entries ++ entries).map (·.1)).Nodup) :
    (entries.foldl (fun m e => m.insert e.1 e.2) m).entries = m.entries ++ entries := by
  induction entries generalizing m with
  | nil => rw [List.foldl_nil, List.append_nil]
  | cons e rest ih =>
    have hnew : e.1 ∉ m.keys := by
      rw [List.map_append, List.nodup_append] at h
      exact fun hmem => h.2.2 e.1 hmem e.1 List.mem_cons_self rfl
    have hentries : (m.insert e.1 e.2).entries ++ rest = m.entries ++ e :: rest := by
      rw [entries_insert hnew, List.append_assoc]
      rfl
    rw [List.foldl_cons, ih (hentries ▸ h), hentries]

theorem entries_ofList {entries : List (String × β)} (h : (entries.map (·.1)).Nodup) :
    (ofList entries).entries = entries :=
  entries_foldl_insert h

theorem mem_keys_foldl_insert {entries : List (String × β)} :
    name ∈ (entries.foldl (fun m e => m.insert e.1 e.2) m).keys ↔
      name ∈ m.keys ∨ name ∈ entries.map (·.1) := by
  induction entries generalizing m with
  | nil => simp
  | cons e rest ih =>
    rw [List.foldl_cons, ih, keys_insert, List.map_cons, List.mem_cons]
    split
    · rename_i hmem
      constructor
      · exact Or.imp_right .inr
      · rintro (h | rfl | h)
        · exact .inl h
        · exact .inl hmem
        · exact .inr h
    · rw [List.mem_append, List.mem_singleton, or_assoc]

/-- Inserting entries makes a map of their names. -/
theorem mem_keys_ofList {entries : List (String × β)} :
    name ∈ (ofList entries).keys ↔ name ∈ entries.map (·.1) := by
  rw [ofList, mem_keys_foldl_insert]
  exact or_iff_right List.not_mem_nil

/-- Inserted names that are new are listed behind the others, by their first
    entry. -/
theorem keys_foldl_insert (entries : List (String × β)) :
    (entries.foldl (fun m e => m.insert e.1 e.2) m).keys =
      m.keys ++ ((entries.map (·.1)).filter fun n => !m.keys.contains n).eraseDups := by
  induction entries generalizing m with
  | nil => simp
  | cons e rest ih =>
    rw [List.foldl_cons, ih, keys_insert, List.map_cons]
    by_cases hmem : e.1 ∈ m.keys
    · simp [hmem]
    · have hfilter : (rest.map (·.1)).filter (fun n => !(m.keys ++ [e.1]).contains n) =
          ((rest.map (·.1)).filter fun n => !m.keys.contains n).filter fun n => !n == e.1 := by
        rw [List.filter_filter]
        refine List.filter_congr fun n _ => ?_
        by_cases hn : n = e.1 <;> simp [hn]
      rw [if_neg hmem, hfilter, List.filter_cons_of_pos (by simpa using hmem), List.eraseDups_cons,
        List.append_assoc, List.singleton_append]

/-- The names of a map that is made of entries, by their first entry. -/
theorem keys_ofList (entries : List (String × β)) :
    (ofList entries).keys = (entries.map (·.1)).eraseDups := by
  rw [ofList, keys_foldl_insert]
  have hempty : (empty : OrderedMap β).keys = [] := rfl
  simp [hempty]

theorem get?_foldl_insert (entries : List (String × β)) :
    (entries.foldl (fun m e => m.insert e.1 e.2) m).get? name =
      (lookup? name entries.reverse).or (m.get? name) := by
  induction entries generalizing m with
  | nil => rfl
  | cons e rest ih =>
    rw [List.foldl_cons, ih, get?_insert, List.reverse_cons, lookup?_append, Option.or_assoc]
    congr 1
    by_cases he : e.1 = name <;> simp [lookup?, he]

/-- In a map that is made of entries a name maps to the value of its last entry. -/
theorem get?_ofList (entries : List (String × β)) :
    (ofList entries).get? name = lookup? name entries.reverse := by
  have hempty : (empty : OrderedMap β).get? name = none := rfl
  rw [ofList, get?_foldl_insert, hempty, Option.or_none]

theorem ofList_entries (m : OrderedMap β) : ofList m.entries = m := by
  have h := entries_ofList m.nodup
  cases m
  cases h' : ofList _
  rw [h'] at h
  cases h
  rfl

end OrderedMap

end FuzzyInference
