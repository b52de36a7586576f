import FuzzyInference.Proofs.Variable.Equality

/-!
# Stores and their histories

A store is made from an empty one by adding and removing variables and by
changing ranges in place. What a name stands for, where it is listed and which
key it has are what these operations on that name alone make of it: the variable
added last with the ranges set since, the place of the first addition since the
last removal, and a key that is new at that addition and is kept until the
removal.

Results:

* `get?_perform`, `key?_perform_of_ne`, `names_perform`: what one operation changes.
* `get?_run` and `listed_run`: what a name stands for, and the order of names.
* `byKey?_run_removed`: a key is gone for good with its variable.
* `tracks_run`: all of it, after every history.
-/

namespace FuzzyInference

theorem OrderedMap.keys_erase {β : Type} (m : OrderedMap β) (name : String) :
    (m.erase name).keys = m.keys.filter fun other => decide (other ≠ name) := by
  rw [keys, keys, List.filter_map]
  rfl

namespace VariableStore

variable {α : Type}

/-- A change of a store. -/
inductive Operation (α : Type) where
  | add (v : Variable α)
  | remove (name : String)
  | setRange (name : String) (min max : α)

namespace Operation

/-- The name that an operation is about. -/
def name : Operation α → String
  | add v => v.name
  | remove name | setRange name _ _ => name

/-- What an operation makes of the variable of its name. -/
def update : Operation α → Option (Variable α) → Option (Variable α)
  | add v, _ => some v
  | remove _, _ => none
  | setRange _ min max, old => old.map fun v => { v with min, max }

/-- What an operation makes of the moment when its name was listed. -/
def enter (now : Nat) : Operation α → Option Nat → Option Nat
  | add _, old => some (old.getD now)
  | remove _, _ => none
  | setRange .., old => old

end Operation

/-- Performs one operation on a store. -/
def perform (s : VariableStore α) : Operation α → VariableStore α
  | .add v => s.add v
  | .remove name => s.remove name
  | .setRange name min max => s.setRange name min max

/-- Performs operations on an empty store, one after the other. -/
def run (ops : List (Operation α)) : VariableStore α := ops.foldl perform empty

/-- The variable added last under a name and not removed, with the ranges set
    since. -/
def lastAdded (name : String) (ops : List (Operation α)) : Option (Variable α) :=
  ops.foldl (fun old op => if op.name = name then op.update old else old) none

/-- The position of the first addition under a name since its last removal. -/
def entered (name : String) (ops : List (Operation α)) : Option Nat :=
  ops.zipIdx.foldl (fun old (op, now) => if op.name = name then op.enter now old else old) none

/-! ## One more operation -/

theorem run_concat (ops : List (Operation α)) (op : Operation α) :
    run (ops ++ [op]) = (run ops).perform op := by
  rw [run, List.foldl_append, run]
  rfl

theorem run_append (ops later : List (Operation α)) :
    run (ops ++ later) = later.foldl perform (run ops) :=
  List.foldl_append

theorem lastAdded_concat (name : String) (ops : List (Operation α)) (op : Operation α) :
    lastAdded name (ops ++ [op]) =
      if op.name = name then op.update (lastAdded name ops) else lastAdded name ops := by
  rw [lastAdded, List.foldl_append, lastAdded]
  rfl

theorem entered_concat (name : String) (ops : List (Operation α)) (op : Operation α) :
    entered name (ops ++ [op]) =
      if op.name = name then op.enter ops.length (entered name ops) else entered name ops := by
  rw [entered, List.zipIdx_append, List.foldl_append, Nat.zero_add, entered]
  rfl

variable {s : VariableStore α}

theorem IsNamed.perform (h : s.IsNamed) (op : Operation α) : (s.perform op).IsNamed := by
  cases op with
  | add v => exact h.add v
  | remove name => exact h.remove name
  | setRange name min max => exact h.setRange name min max

theorem isNamed_run (ops : List (Operation α)) : (run ops).IsNamed := by
  induction ops using List.reverseRec with
  | nil => exact isNamed_empty
  | append_singleton ops op ih =>
    rw [run_concat]
    exact ih.perform op

/-! ## What names stand for -/

theorem get?_perform (h : s.IsNamed) (op : Operation α) (name : String) :
    (s.perform op).get? name = if op.name = name then op.update (s.get? name) else s.get? name := by
  cases op with
  | add v => exact get?_add h v name
  | remove other => exact get?_remove h other name
  | setRange other min max => exact get?_setRange h other min max name

theorem get?_run (ops : List (Operation α)) (name : String) :
    (run ops).get? name = lastAdded name ops := by
  induction ops using List.reverseRec with
  | nil => rfl
  | append_singleton ops op ih =>
    rw [run_concat, get?_perform (isNamed_run ops), lastAdded_concat, ih]

/-- What a listed name leads to. -/
theorem IsNamed.resolves (h : s.IsNamed) {name : String} (hname : name ∈ s.names) :
    ∃ key v, s.key? name = some key ∧ s.byKey? key = some v ∧ s.get? name = some v ∧
      v.name = name := by
  obtain ⟨key, hkey⟩ := Option.ne_none_iff_exists'.1 fun hnone => key?_eq_none_iff.1 hnone hname
  obtain ⟨v, hv, hown⟩ := h.leads hkey
  exact ⟨key, v, hkey, hv, by rw [get?, hkey, Option.bind_some, hv], hown⟩

/-! ## The order of names -/

theorem names_remove (s : VariableStore α) (name : String) :
    (s.remove name).names = s.names.filter fun other => decide (other ≠ name) := by
  unfold VariableStore.remove extract
  split
  · exact OrderedMap.keys_erase _ _
  · rename_i hkey
    have hnot : name ∉ s.names := key?_eq_none_iff.1 hkey
    refine (List.filter_eq_self.2 fun other hother => decide_eq_true ?_).symm
    rintro rfl
    exact hnot hother

theorem names_setRange (s : VariableStore α) (name : String) (min max : α) :
    (s.setRange name min max).names = s.names := by
  unfold VariableStore.setRange
  split <;> rfl

theorem names_perform (s : VariableStore α) (op : Operation α) :
    (s.perform op).names = match op with
      | .add v => if v.name ∈ s.names then s.names else s.names ++ [v.name]
      | .remove name => s.names.filter fun other => decide (other ≠ name)
      | .setRange .. => s.names := by
  cases op with
  | add v => exact names_add s v
  | remove name => exact names_remove s name
  | setRange name min max => exact names_setRange s name min max

/-- No operation changes the order of the other names. -/
theorem names_perform_others (s : VariableStore α) (op : Operation α) :
    (s.perform op).names.filter (fun other => decide (other ≠ op.name)) =
      s.names.filter fun other => decide (other ≠ op.name) := by
  rw [names_perform]
  cases op with
  | add v =>
    dsimp only
    split
    · rfl
    · simp [Operation.name]
  | remove name =>
    dsimp only [Operation.name]
    rw [List.filter_filter]
    exact List.filter_congr fun other _ => Bool.and_self _
  | setRange name min max => rfl

/-- Names are listed at their moments, in order, and all moments have passed. -/
structure Listed (names : List String) (entered : String → Option Nat) (now : Nat) : Prop where
  mem_iff : ∀ name, name ∈ names ↔ (entered name).isSome
  sorted : names.Pairwise fun m n => ∀ i j, entered m = some i → entered n = some j → i < j
  lt_now : ∀ name i, entered name = some i → i < now

theorem Listed.later {names : List String} {entered : String → Option Nat} {now : Nat}
    (h : Listed names entered now) : Listed names entered (now + 1) :=
  ⟨h.mem_iff, h.sorted, fun name i hi => Nat.lt_succ_of_lt (h.lt_now name i hi)⟩

/-- A new name comes behind the others. -/
theorem Listed.append {names : List String} {entered : String → Option Nat} {now : Nat}
    {name : String} (h : Listed names entered now) (hnew : name ∉ names) :
    Listed (names ++ [name])
      (fun other => if name = other then some ((entered other).getD now) else entered other)
        (now + 1) where
  mem_iff other := by
    by_cases hname : name = other
    · simp [hname]
    · have hne : other ≠ name := fun e => hname e.symm
      rw [if_neg hname, List.mem_append, List.mem_singleton, or_iff_left hne, h.mem_iff]
  sorted := by
    have hnone : entered name = none := by
      rw [← Option.not_isSome_iff_eq_none, ← h.mem_iff]
      exact hnew
    refine List.pairwise_append.2 ⟨?_, List.pairwise_singleton _ _, ?_⟩
    · refine h.sorted.imp_of_mem fun {m n} hm hn hlt i j hi hj => ?_
      rw [if_neg fun e : name = m => hnew (e ▸ hm)] at hi
      rw [if_neg fun e : name = n => hnew (e ▸ hn)] at hj
      exact hlt i j hi hj
    · intro m hm n hn i j hi hj
      rw [List.mem_singleton.1 hn, if_pos rfl, hnone] at hj
      rw [if_neg fun e : name = m => hnew (e ▸ hm)] at hi
      cases hj
      exact h.lt_now m i hi
  lt_now other i hi := by
    split at hi
    · cases hother : entered other with
      | none =>
        rw [hother] at hi
        cases hi
        exact Nat.lt_succ_self now
      | some j =>
        rw [hother] at hi
        cases hi
        exact Nat.lt_succ_of_lt (h.lt_now other _ hother)
    · exact Nat.lt_succ_of_lt (h.lt_now other i hi)

/-- A name that is taken out leaves the others in place. -/
theorem Listed.filter {names : List String} {entered : String → Option Nat} {now : Nat}
    (h : Listed names entered now) (name : String) :
    Listed (names.filter fun other => decide (other ≠ name))
      (fun other => if name = other then none else entered other) now where
  mem_iff other := by
    rw [List.mem_filter, h.mem_iff, decide_eq_true_iff]
    by_cases hname : name = other
    · simp [hname]
    · have hne : other ≠ name := fun e => hname e.symm
      rw [if_neg hname, and_iff_left hne]
  sorted := by
    refine (h.sorted.sublist List.filter_sublist).imp fun {m n} hlt i j hi hj => ?_
    split at hi
    · cases hi
    · split at hj
      · cases hj
      · exact hlt i j hi hj
  lt_now other i hi := by
    split at hi
    · cases hi
    · exact h.lt_now other i hi

theorem listed_perform {ops : List (Operation α)} (op : Operation α)
    (h : Listed s.names (fun name => entered name ops) ops.length) :
    Listed (s.perform op).names (fun name => entered name (ops ++ [op])) (ops ++ [op]).length := by
  have hmoments : (fun name => entered name (ops ++ [op])) =
      fun name => if op.name = name then op.enter ops.length (entered name ops)
        else entered name ops :=
    funext fun name => entered_concat name ops op
  rw [hmoments, List.length_append, names_perform]
  cases op with
  | add v =>
    dsimp only
    split
    · -- A listed name keeps its moment.
      rename_i hmem
      obtain ⟨i, hi⟩ := Option.isSome_iff_exists.1 ((h.mem_iff _).1 hmem)
      have hsame : (fun name => if v.name = name then some ((entered name ops).getD ops.length)
          else entered name ops) = fun name => entered name ops := by
        funext name
        split
        · rename_i hname
          rw [← hname, hi]
          rfl
        · rfl
      exact hsame ▸ h.later
    · rename_i hnew
      exact h.append hnew
  | remove name => exact (h.filter name).later
  | setRange name min max =>
    have hsame : (fun other => if name = other then entered other ops else entered other ops) =
        fun other => entered other ops := by
      funext other
      rw [ite_self]
    exact hsame ▸ h.later

theorem listed_run (ops : List (Operation α)) :
    Listed (run ops).names (fun name => entered name ops) ops.length := by
  induction ops using List.reverseRec with
  | nil =>
    have hnone : ∀ name, name ∉ (empty : VariableStore α).names := fun _ => List.not_mem_nil
    exact ⟨fun name => iff_of_false (hnone name) Bool.false_ne_true, .nil, nofun⟩
  | append_singleton ops op ih =>
    rw [run_concat]
    exact listed_perform op ih

/-! ## Keys -/

/-- The key that an addition gives is the one of the name, unless the name is
    new. -/
theorem key?_insert_of_mem {v : Variable α} (h : v.name ∈ s.names) :
    s.key? v.name = some (s.insert v).2 := by
  obtain ⟨key, hkey⟩ := Option.ne_none_iff_exists'.1 fun hnone => key?_eq_none_iff.1 hnone h
  rw [VariableStore.insert, hkey]

theorem insert_of_not_mem {v : Variable α} (h : v.name ∉ s.names) :
    (s.insert v).2 = s.slots.nextKey := by
  rw [VariableStore.insert, key?_eq_none_iff.2 h]

theorem key?_perform_of_ne (op : Operation α) {name : String} (h : op.name ≠ name) :
    (s.perform op).key? name = s.key? name := by
  cases op with
  | add v => exact (key?_add s v name).trans (if_neg h)
  | remove other => exact (key?_remove s other name).trans (if_neg h)
  | setRange other min max => exact key?_setRange s other min max name

theorem nextKey_le_perform (s : VariableStore α) (op : Operation α) :
    s.slots.nextKey ≤ (s.perform op).slots.nextKey := by
  cases op with
  | add v =>
    unfold perform VariableStore.add VariableStore.insert
    dsimp only
    split
    · exact (SlotMap.nextKey_modify _ _ _).ge
    · exact (Nat.le_succ _).trans (SlotMap.nextKey_insert _ _).ge
  | remove name =>
    unfold perform VariableStore.remove extract
    dsimp only
    split
    · exact (SlotMap.nextKey_remove _ _).ge
    · exact le_rfl
  | setRange name min max =>
    unfold perform VariableStore.setRange
    dsimp only
    split
    · exact (SlotMap.nextKey_modify _ _ _).ge
    · exact le_rfl

theorem nextKey_le_foldl (s : VariableStore α) (ops : List (Operation α)) :
    s.slots.nextKey ≤ (ops.foldl perform s).slots.nextKey := by
  induction ops generalizing s with
  | nil => exact le_rfl
  | cons op ops ih => exact (nextKey_le_perform s op).trans (ih _)

/-- The key that an addition gives has been given out. -/
theorem IsNamed.insert_lt_nextKey (h : s.IsNamed) (v : Variable α) :
    (s.insert v).2 < (s.add v).slots.nextKey := by
  have hkey : (s.add v).key? v.name = some (s.insert v).2 :=
    (key?_add s v v.name).trans (if_pos rfl)
  exact (h.add v).lt_nextKey hkey

/-- A new name gets a key that no addition before it gave. -/
theorem insert_ne_of_new {ops front back : List (Operation α)} {v w : Variable α}
    (hnew : v.name ∉ (run ops).names) (hops : ops = front ++ .add w :: back) :
    ((run front).insert w).2 ≠ ((run ops).insert v).2 := by
  have hbefore := (isNamed_run front).insert_lt_nextKey w
  have hlater : ((run front).add w).slots.nextKey ≤ (run ops).slots.nextKey := by
    rw [hops, run_append]
    exact nextKey_le_foldl _ back
  rw [insert_of_not_mem hnew]
  exact Nat.ne_of_lt (hbefore.trans_le hlater)

/-- A key that was given out and leads nowhere is not revived. -/
theorem byKey?_perform_eq_none (h : s.IsNamed) {key : Nat} (hnone : s.byKey? key = none)
    (hlt : key < s.slots.nextKey) (op : Operation α) : (s.perform op).byKey? key = none := by
  cases op with
  | add v =>
    refine (byKey?_add h v key).trans ?_
    rw [if_neg, hnone]
    -- A key that an addition gives is in use, or it has not been given out yet.
    rintro rfl
    by_cases hmem : v.name ∈ s.names
    · obtain ⟨w, hw, -⟩ := h.leads (key?_insert_of_mem hmem)
      rw [hnone] at hw
      cases hw
    · exact hlt.ne (insert_of_not_mem hmem)
  | remove name =>
    refine (byKey?_remove s name key).trans ?_
    rw [hnone, ite_self]
  | setRange name min max =>
    refine (byKey?_setRange s name min max key).trans ?_
    rw [hnone, Option.map_none, ite_self]

theorem byKey?_foldl_eq_none (h : s.IsNamed) {key : Nat} (hnone : s.byKey? key = none)
    (hlt : key < s.slots.nextKey) (ops : List (Operation α)) :
    (ops.foldl perform s).byKey? key = none := by
  induction ops generalizing s with
  | nil => exact hnone
  | cons op ops ih =>
    exact ih (h.perform op) (byKey?_perform_eq_none h hnone hlt op)
      (hlt.trans_le (nextKey_le_perform s op))

/-- A key is gone for good with its variable. -/
theorem byKey?_run_removed {ops : List (Operation α)} {name : String} {key : Nat}
    (hkey : (run ops).key? name = some key) (later : List (Operation α)) :
    (run (ops ++ .remove name :: later)).byKey? key = none := by
  have hnone : ((run ops).remove name).byKey? key = none :=
    (byKey?_remove _ name key).trans (if_pos hkey)
  have hlt : key < ((run ops).remove name).slots.nextKey :=
    ((isNamed_run ops).lt_nextKey hkey).trans_le (nextKey_le_perform _ (.remove name))
  rw [run_append]
  exact byKey?_foldl_eq_none ((isNamed_run ops).remove name) hnone hlt later

/-! ## Whole histories -/

variable [Scalar α]

/-- What holds of the store that some operations make of an empty one. -/
structure Tracks (ops : List (Operation α)) : Prop where
  /-- No name is listed twice. -/
  nodup_names : (run ops).names.Nodup
  /-- The names that are listed were added, and not removed since. -/
  mem_names_iff : ∀ name, name ∈ (run ops).names ↔ (entered name ops).isSome
  /-- They are in the order of their first addition since their last removal. -/
  names_sorted : (run ops).names.Pairwise fun m n =>
    ∀ i j, entered m ops = some i → entered n ops = some j → i < j
  size_eq : (run ops).size = (run ops).names.length
  /-- A name stands for the last variable added under it, with the ranges set
      since. -/
  get?_eq : ∀ name, (run ops).get? name = lastAdded name ops
  /-- What a name stands for has the name, and it is what the key of the name leads
      to. -/
  resolves : ∀ name ∈ (run ops).names, ∃ key v, (run ops).key? name = some key ∧
    (run ops).byKey? key = some v ∧ (run ops).get? name = some v ∧ v.name = name
  /-- A name that is not listed has no key and stands for nothing. -/
  absent : ∀ name ∉ (run ops).names, (run ops).key? name = none ∧ (run ops).get? name = none
  /-- An addition gives the key that its name has from then on. -/
  key?_added : ∀ v, ((run ops).add v).key? v.name = some ((run ops).insert v).2
  /-- A listed name keeps its key and its place when it is added again. -/
  added_again : ∀ v, v.name ∈ (run ops).names →
    (run ops).key? v.name = some ((run ops).insert v).2 ∧ ((run ops).add v).names = (run ops).names
  /-- Any other name comes last, under a key that no addition gave before. -/
  added_new : ∀ v, v.name ∉ (run ops).names →
    ((run ops).add v).names = (run ops).names ++ [v.name] ∧
      ∀ front w back, ops = front ++ .add w :: back →
        ((run front).insert w).2 ≠ ((run ops).insert v).2
  /-- The key of a removed name never leads to a variable again. -/
  removed : ∀ name key, (run ops).key? name = some key →
    ∀ later, (run (ops ++ .remove name :: later)).byKey? key = none
  /-- An operation leaves the variables, the keys and the order of all other names
      as they are. -/
  others : ∀ op : Operation α,
    (∀ name, op.name ≠ name → ((run ops).perform op).get? name = (run ops).get? name ∧
      ((run ops).perform op).key? name = (run ops).key? name) ∧
    ((run ops).perform op).names.filter (fun other => decide (other ≠ op.name)) =
      (run ops).names.filter fun other => decide (other ≠ op.name)
  /-- The variables taken out of the store are the ones of its names in order, and
      make a store of the same variables in the same order. -/
  converted : (run ops).intoList = (run ops).toList ∧
    (run ops).toList.map some = (run ops).names.map (run ops).get? ∧
    (ofList (run ops).intoList).toList = (run ops).toList
  /-- That store equals the first one exactly if each variable equals itself. -/
  equal_iff : (ofList (run ops).intoList).same (run ops) = true ↔
    ∀ v ∈ (run ops).toList, v.same v = true
  /-- Variables of finite numbers do. -/
  equal_of_finite : (∀ v ∈ (run ops).toList, v.All Finite) →
    (ofList (run ops).intoList).same (run ops) = true

/-- A store is what its history makes of it, name by name. -/
theorem tracks_run [ReflexiveNumbers α] [CloseNumbers α] (ops : List (Operation α)) :
    Tracks ops where
  nodup_names := (run ops).index.nodup
  mem_names_iff := (listed_run ops).mem_iff
  names_sorted := (listed_run ops).sorted
  size_eq := (List.length_map _).symm
  get?_eq := get?_run ops
  resolves _ hname := (isNamed_run ops).resolves hname
  absent name hname := by
    have hkey := key?_eq_none_iff.2 hname
    exact ⟨hkey, by rw [get?, hkey, Option.bind_none]⟩
  key?_added v := (key?_add _ v v.name).trans (if_pos rfl)
  added_again v hname := ⟨key?_insert_of_mem hname, (names_add _ v).trans (if_pos hname)⟩
  added_new v hname :=
    ⟨(names_add _ v).trans (if_neg hname), fun _ _ _ hops => insert_ne_of_new hname hops⟩
  removed _ _ hkey later := byKey?_run_removed hkey later
  others op := by
    refine ⟨fun name hname => ⟨?_, key?_perform_of_ne op hname⟩, names_perform_others _ op⟩
    rw [get?_perform (isNamed_run ops), if_neg hname]
  converted := by
    have hnamed := isNamed_run ops
    exact ⟨hnamed.intoList_eq, hnamed.map_toList fun hget _ => hget.symm, by
      rw [hnamed.intoList_eq, hnamed.toList_ofList]⟩
  equal_iff := by
    rw [(isNamed_run ops).intoList_eq]
    exact same_iff_of_toList (isNamed_run ops) (isNamed_ofList _) (isNamed_run ops).toList_ofList
  equal_of_finite hfinite := by
    rw [(isNamed_run ops).intoList_eq]
    exact (same_iff_of_toList (isNamed_run ops) (isNamed_ofList _)
      (isNamed_run ops).toList_ofList).2
      fun v hv => Variable.same_self (hfinite v hv)

/-- Wind is measured again, its scale is set anew, and it leaves and enters behind
    rain. -/
def opsOfWeather : List (Operation Float) :=
  [.add ⟨"wind", 0, 30, .empty⟩, .add ⟨"rain", 0, 1, .empty⟩, .add ⟨"wind", 0, 40, .empty⟩,
    .setRange "wind" 0 50, .remove "wind", .add ⟨"wind", 0, 60, .empty⟩]

theorem tracks_ofWeather : Tracks opsOfWeather ∧ (run opsOfWeather).names = ["rain", "wind"] :=
  ⟨tracks_run opsOfWeather, rfl⟩

/-- Wind is strong to an undefined degree. -/
def opsOfUndefined : List (Operation Float) :=
  [.add ⟨"wind", 0, 30, .ofList [("strong", .lookup [Scalar.notANumber, 1])]⟩]

/-- An undefined number differs from itself, and so does a store with one. -/
theorem same_ofUndefined :
    (ofList (run opsOfUndefined).intoList).same (run opsOfUndefined) = false := by
  decide +kernel

end VariableStore

end FuzzyInference
