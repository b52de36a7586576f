import FuzzyInference.Proofs.OrderedMap
import FuzzyInference.Variable.Store
import Mathlib.Data.List.Nodup

/-!
# Stores by name

A store made by its operations keeps every variable under the name it has: each
name in the index leads to a slot with a variable of that name, and every
variable in a slot is led to by its name. So distinct names have distinct keys,
and a change under one name leaves the others alone.

Adding the variables of such a store one after the other makes a store with the
same variables in the same order; only the keys may be others.

Results:

* `IsNamed.add`, `IsNamed.remove`, `IsNamed.setRange`: the operations keep names.
* `get?_add`, `get?_remove`, `get?_setRange`: what a name stands for after a
  change.
* `IsNamed.intoList_eq`: taking the variables out gives them in order.
* `IsNamed.toList_ofList`: the variables of a store make a store of them.
-/

namespace FuzzyInference

/-! ## Draining slots -/

/-- Distinct keys do not take values from each other. -/
theorem SlotMap.drain_eq {β : Type} {m : SlotMap β} {keys : List Nat} (h : keys.Nodup) :
    m.drain keys = keys.filterMap m.get? := by
  induction keys generalizing m with
  | nil => rfl
  | cons key keys ih =>
    obtain ⟨hkey, hkeys⟩ := List.nodup_cons.1 h
    have hothers : keys.filterMap (m.remove key).get? = keys.filterMap m.get? := by
      refine List.filterMap_congr fun other hother => ?_
      have hne : key ≠ other := fun e => hkey (e ▸ hother)
      rw [get?_remove, if_neg hne]
    rw [drain, ih hkeys, hothers, List.filterMap_cons]
    cases m.get? key <;> rfl

namespace VariableStore

variable {α : Type} {s : VariableStore α}

/-- Every variable is stored under its name. -/
structure IsNamed (s : VariableStore α) : Prop where
  /-- A name leads to a variable of that name. -/
  leads : ∀ {name key}, s.key? name = some key → ∃ v, s.byKey? key = some v ∧ v.name = name
  /-- A variable in a slot is led to by its name. -/
  indexed : ∀ {key v}, s.byKey? key = some v → s.key? v.name = some key

theorem isNamed_empty : (empty : VariableStore α).IsNamed where
  leads h := by cases h
  indexed h := by cases h

/-- Names with the same key are the same. -/
theorem IsNamed.name_unique (h : s.IsNamed) {name other : String} {key : Nat}
    (hname : s.key? name = some key) (hother : s.key? other = some key) : name = other := by
  obtain ⟨v, hv, rfl⟩ := h.leads hname
  obtain ⟨w, hw, rfl⟩ := h.leads hother
  rw [hv] at hw
  rw [Option.some.inj hw]

theorem IsNamed.lt_nextKey (h : s.IsNamed) {name : String} {key : Nat}
    (hname : s.key? name = some key) : key < s.slots.nextKey := by
  obtain ⟨v, hv, -⟩ := h.leads hname
  exact SlotMap.lt_nextKey hv

/-- The key of an added variable is not the one of another name. -/
theorem IsNamed.insert_ne (h : s.IsNamed) {v : Variable α} {name : String} {key : Nat}
    (hname : s.key? name = some key) (hne : v.name ≠ name) : (s.insert v).2 ≠ key := by
  unfold VariableStore.insert
  split
  · rename_i own hown
    rintro rfl
    exact hne (h.name_unique hown hname)
  · exact Nat.ne_of_gt (h.lt_nextKey hname)

/-! ## Slots after a change -/

theorem byKey?_add (h : s.IsNamed) (v : Variable α) (key : Nat) :
    (s.add v).byKey? key = if (s.insert v).2 = key then some v else s.byKey? key := by
  unfold VariableStore.add VariableStore.insert
  split
  · rename_i own hown
    obtain ⟨w, hw, -⟩ := h.leads hown
    show (s.slots.modify own fun _ => v).get? key = _
    rw [SlotMap.get?_modify]
    split
    · rename_i heq
      have hslot : s.slots.get? key = some w := heq ▸ hw
      rw [hslot]
      rfl
    · rfl
  · exact SlotMap.get?_insert _ _ _

theorem byKey?_remove (s : VariableStore α) (name : String) (key : Nat) :
    (s.remove name).byKey? key = if s.key? name = some key then none else s.byKey? key := by
  unfold VariableStore.remove extract
  split
  · rename_i own hown
    simp only [hown, Option.some.injEq]
    exact SlotMap.get?_remove _ _ _
  · rename_i hown
    simp only [hown, reduceCtorEq, if_false]

theorem key?_setRange (s : VariableStore α) (name : String) (min max : α) (other : String) :
    (s.setRange name min max).key? other = s.key? other := by
  unfold VariableStore.setRange
  split <;> rfl

theorem byKey?_setRange (s : VariableStore α) (name : String) (min max : α) (key : Nat) :
    (s.setRange name min max).byKey? key =
      if s.key? name = some key then (s.byKey? key).map fun v => { v with min, max }
        else s.byKey? key := by
  unfold VariableStore.setRange
  split
  · rename_i own hown
    simp only [hown, Option.some.injEq]
    exact SlotMap.get?_modify _ _ _ _
  · rename_i hown
    simp only [hown, reduceCtorEq, if_false]

/-! ## Names are kept -/

theorem IsNamed.add (h : s.IsNamed) (v : Variable α) : (s.add v).IsNamed where
  leads {name key} hkey := by
    rw [key?_add] at hkey
    rw [byKey?_add h]
    split at hkey
    · rename_i hname
      exact ⟨v, if_pos (Option.some.inj hkey), hname⟩
    · rename_i hname
      rw [if_neg (h.insert_ne hkey hname)]
      exact h.leads hkey
  indexed {key w} hw := by
    rw [byKey?_add h] at hw
    rw [key?_add]
    split at hw
    · rename_i hkey
      rw [← Option.some.inj hw, if_pos rfl, hkey]
    · rename_i hkey
      have hown := h.indexed hw
      rw [if_neg, hown]
      intro hname
      unfold VariableStore.insert at hkey
      rw [hname, hown] at hkey
      exact hkey rfl

theorem IsNamed.remove (h : s.IsNamed) (name : String) : (s.remove name).IsNamed where
  leads {other key} hkey := by
    rw [key?_remove] at hkey
    split at hkey
    · cases hkey
    · rename_i hname
      rw [byKey?_remove, if_neg fun e => hname (h.name_unique e hkey)]
      exact h.leads hkey
  indexed {key w} hw := by
    rw [byKey?_remove] at hw
    split at hw
    · cases hw
    · rename_i hkey
      have hown := h.indexed hw
      rw [key?_remove, if_neg, hown]
      rintro rfl
      exact hkey hown

theorem IsNamed.setRange (h : s.IsNamed) (name : String) (min max : α) :
    (s.setRange name min max).IsNamed where
  leads {other key} hkey := by
    rw [key?_setRange] at hkey
    obtain ⟨v, hv, hname⟩ := h.leads hkey
    rw [byKey?_setRange, hv]
    split
    · exact ⟨_, rfl, hname⟩
    · exact ⟨v, rfl, hname⟩
  indexed {key w} hw := by
    rw [byKey?_setRange] at hw
    rw [key?_setRange]
    split at hw
    · obtain ⟨v, hv, rfl⟩ := Option.map_eq_some_iff.1 hw
      have hown := h.indexed hv
      exact hown
    · exact h.indexed hw

theorem isNamed_ofList (vs : List (Variable α)) : (ofList vs).IsNamed := by
  suffices h : ∀ s : VariableStore α, s.IsNamed → (vs.foldl VariableStore.add s).IsNamed from
    h empty isNamed_empty
  induction vs with
  | nil => exact fun s h => h
  | cons v vs ih => exact fun s h => ih _ (h.add v)

/-! ## What a name stands for -/

theorem get?_add (h : s.IsNamed) (v : Variable α) (name : String) :
    (s.add v).get? name = if v.name = name then some v else s.get? name := by
  unfold get?
  rw [key?_add]
  split
  · rw [Option.bind_some, byKey?_add h, if_pos rfl]
  · rename_i hname
    cases hkey : s.key? name with
    | none => rfl
    | some key =>
      rw [Option.bind_some, Option.bind_some, byKey?_add h, if_neg (h.insert_ne hkey hname)]

theorem get?_remove (h : s.IsNamed) (name other : String) :
    (s.remove name).get? other = if name = other then none else s.get? other := by
  unfold get?
  rw [key?_remove]
  split
  · rfl
  · rename_i hname
    cases hkey : s.key? other with
    | none => rfl
    | some key =>
      rw [Option.bind_some, Option.bind_some, byKey?_remove,
        if_neg fun e => hname (h.name_unique e hkey)]

theorem get?_setRange (h : s.IsNamed) (name : String) (min max : α) (other : String) :
    (s.setRange name min max).get? other =
      if name = other then (s.get? other).map fun v => { v with min, max } else s.get? other := by
  unfold get?
  rw [key?_setRange]
  cases hkey : s.key? other with
  | none => split <;> rfl
  | some key =>
    rw [Option.bind_some, Option.bind_some, byKey?_setRange]
    split
    · rename_i hsame
      rw [if_pos (h.name_unique hsame hkey)]
    · rename_i hother
      rw [if_neg]
      rintro rfl
      exact hother hkey

/-! ## Names in order -/

theorem key?_eq_none_iff {name : String} : s.key? name = none ↔ name ∉ s.names :=
  OrderedMap.get?_eq_none_iff

theorem names_add (s : VariableStore α) (v : Variable α) :
    (s.add v).names = if v.name ∈ s.names then s.names else s.names ++ [v.name] := by
  unfold VariableStore.add VariableStore.insert
  split
  · rename_i key hkey
    rw [if_pos]
    · rfl
    · refine Decidable.not_not.1 fun h => ?_
      rw [key?_eq_none_iff.2 h] at hkey
      cases hkey
  · exact OrderedMap.keys_insert _ _ _

/-! ## Variables in order -/

theorem key?_of_mem {e : String × Nat} (h : e ∈ s.index.entries) : s.key? e.1 = some e.2 :=
  OrderedMap.get?_eq_some_iff.2 h

/-- The variables in order, by what their names lead to. -/
theorem IsNamed.map_toList (h : s.IsNamed) {β : Type} {f : Variable α → β} {g : String → β}
    (hfg : ∀ {name v}, s.get? name = some v → v.name = name → f v = g name) :
    s.toList.map f = s.names.map g := by
  have hkeys : ∀ e ∈ s.index.entries, s.key? e.1 = some e.2 := fun _ => key?_of_mem
  unfold toList names OrderedMap.values OrderedMap.keys
  generalize s.index.entries = entries at hkeys ⊢
  induction entries with
  | nil => rfl
  | cons e entries ih =>
    obtain ⟨hfirst, hrest⟩ := List.forall_mem_cons.1 hkeys
    obtain ⟨v, hv, hname⟩ := h.leads hfirst
    have hget : s.get? e.1 = some v := by rw [get?, hfirst, Option.bind_some, hv]
    rw [List.map_cons, List.filterMap_cons, hv, List.map_cons, List.map_cons, List.map_cons,
      hfg hget hname, ih hrest]

theorem IsNamed.map_name (h : s.IsNamed) : s.toList.map Variable.name = s.names := by
  rw [h.map_toList fun _ hname => hname, List.map_id']

/-- Distinct names have distinct keys. -/
theorem IsNamed.nodup_values (h : s.IsNamed) : s.index.values.Nodup := by
  refine List.Nodup.map_on ?_ (List.Nodup.of_map _ s.index.nodup)
  intro e he f hf hkey
  have hname : e.1 = f.1 := h.name_unique (key?_of_mem he) (hkey ▸ key?_of_mem hf)
  exact Prod.ext hname hkey

/-- Taking the variables out of the store gives them in order. -/
theorem IsNamed.intoList_eq (h : s.IsNamed) : s.intoList = s.toList :=
  SlotMap.drain_eq h.nodup_values

theorem values_add {v : Variable α} (h : v.name ∉ s.names) :
    (s.add v).index.values = s.index.values ++ [(s.insert v).2] := by
  unfold VariableStore.add VariableStore.insert
  rw [key?_eq_none_iff.2 h]
  show (s.index.insert _ _).entries.map _ = _
  rw [OrderedMap.entries_insert h, List.map_append]
  rfl

theorem toList_add {v : Variable α} (hnamed : s.IsNamed) (h : v.name ∉ s.names) :
    (s.add v).toList = s.toList ++ [v] := by
  have hold : s.index.values.filterMap (s.add v).byKey? = s.index.values.filterMap s.byKey? := by
    refine List.filterMap_congr fun key hkey => ?_
    obtain ⟨e, he, rfl⟩ := List.mem_map.1 hkey
    have hne : v.name ≠ e.1 := fun heq => h (List.mem_map.2 ⟨e, he, heq.symm⟩)
    rw [byKey?_add hnamed, if_neg (hnamed.insert_ne (key?_of_mem he) hne)]
  rw [toList, values_add h, List.filterMap_append, hold, List.filterMap_cons,
    byKey?_add hnamed, if_pos rfl]
  rfl

/-- Variables with new names are added in order behind the others. -/
theorem toList_foldl_add {vs : List (Variable α)} (hnamed : s.IsNamed)
    (h : ((s.toList ++ vs).map Variable.name).Nodup) :
    (vs.foldl add s).toList = s.toList ++ vs := by
  induction vs generalizing s with
  | nil => rw [List.foldl_nil, List.append_nil]
  | cons v vs ih =>
    have hnew : v.name ∉ s.names := by
      rw [List.map_append, List.nodup_append, hnamed.map_name] at h
      exact fun hmem => h.2.2 _ hmem _ List.mem_cons_self rfl
    have hlist : (s.add v).toList ++ vs = s.toList ++ v :: vs := by
      rw [toList_add hnamed hnew, List.append_assoc]
      rfl
    rw [List.foldl_cons, ih (hnamed.add v) (hlist ▸ h), hlist]

/-- The variables of a store make a store of them. -/
theorem IsNamed.toList_ofList (h : s.IsNamed) : (ofList s.toList).toList = s.toList := by
  refine toList_foldl_add isNamed_empty ?_
  show (s.toList.map Variable.name).Nodup
  rw [h.map_name]
  exact s.index.nodup

end VariableStore

end FuzzyInference
