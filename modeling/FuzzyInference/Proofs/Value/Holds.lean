import FuzzyInference.Proofs.Logic.Outcome

/-!
# Properties that values keep

What a value stands for can have a property, which an operation on values keeps
if it does so on numbers. An aggregation is a number, or one of its operands
that was missing, whatever it does to numbers.

Results:

* `holds_binaryM`, `holds_binary`, `holds_mapM` and `holds_map`: operations on values.
* `holds_chosen`, `holds_both` and `holds_either`: choices of a value.
* `madeFrom_apply` and `madeFrom_gammaMean`: what aggregations are made of.
-/

namespace FuzzyInference

variable {α : Type}

namespace Value

/-- The number a value stands for, if there is one, has a property. -/
def Holds (P : α → Prop) (v : Value α) : Prop := ∀ x, v.resolve = some x → P x

variable {P : α → Prop} {u v w : Value α}

theorem holds_number {x : α} : (number x).Holds P ↔ P x := by
  constructor
  · exact fun h => h x rfl
  · intro h y hy
    rw [← Option.some.inj hy]
    exact h

theorem holds_of_resolve (h : v.resolve = none) : v.Holds P := by
  intro x hx
  rw [h] at hx
  cases hx

theorem holds_map_ok {ε : Type} {r : Except ε α} (h : number <$> r = .ok w)
    (hr : ∀ c, r = .ok c → P c) : w.Holds P := by
  cases r with
  | error e => cases h
  | ok c =>
    cases h
    exact holds_number.2 (hr c rfl)

/-- An operation on values keeps what it keeps on numbers. -/
theorem holds_withRight {ε : Type} {op : α → α → Except ε α} {a : α}
    (hop : ∀ a b c, P a → P b → op a b = .ok c → P c) (ha : P a) (hv : v.Holds P)
    (h : withRight op a v = .ok w) : w.Holds P := by
  cases v with
  | number b =>
    rw [withRight] at h
    exact holds_map_ok h fun c => hop a b c ha (holds_number.1 hv)
  | sentinel s =>
    rw [withRight] at h
    split at h
    · cases h
      exact holds_number.2 ha
    · rename_i hignore
      split at h
      · rename_i k hk
        have hresolve : (sentinel s).resolve = some k := by
          rw [resolve, Sentinel.substitution, if_neg hignore, hk]
        exact holds_map_ok h fun c => hop a k c ha (hv k hresolve)
      · cases h
        exact hv

theorem holds_binaryM {ε : Type} {op : α → α → Except ε α}
    (hop : ∀ a b c, P a → P b → op a b = .ok c → P c) (hu : u.Holds P) (hv : v.Holds P)
    (h : binaryM op u v = .ok w) : w.Holds P := by
  cases u with
  | number a => exact holds_withRight hop (holds_number.1 hu) hv h
  | sentinel s =>
    rw [binaryM] at h
    split at h
    · cases h
      exact hv
    · rename_i hignore
      split at h
      · rename_i k hk
        have hresolve : (sentinel s).resolve = some k := by
          rw [resolve, Sentinel.substitution, if_neg hignore, hk]
        exact holds_withRight hop (hu k hresolve) hv h
      · cases h
        exact hu

theorem binaryM_ok {ε : Type} (op : α → α → α) (u v : Value α) :
    binaryM (fun a b => (.ok (op a b) : Except ε α)) u v = .ok (binary op u v) := by
  rcases u with a | ⟨_ | _, _ | k⟩ <;> rcases v with b | ⟨_ | _, _ | l⟩ <;> rfl

theorem holds_binary {op : α → α → α} (hop : ∀ a b, P a → P b → P (op a b)) (hu : u.Holds P)
    (hv : v.Holds P) : (binary op u v).Holds P := by
  have hbinary : binaryM (fun a b => (.ok (op a b) : Except Unit α)) u v = .ok (binary op u v) :=
    binaryM_ok op u v
  refine holds_binaryM ?_ hu hv hbinary
  intro a b c ha hb hc
  rw [← Except.ok.inj hc]
  exact hop a b ha hb

theorem holds_mapM {ε : Type} {op : α → Except ε α} (hop : ∀ a c, P a → op a = .ok c → P c)
    (hv : v.Holds P) (h : mapM op v = .ok w) : w.Holds P := by
  rw [mapM] at h
  split at h
  · rename_i a ha
    exact holds_map_ok h fun c => hop a c (hv a ha)
  · cases h
    exact hv

theorem holds_map {op : α → α} (hop : ∀ a, P a → P (op a)) (hv : v.Holds P) :
    (map op v).Holds P := by
  rw [map, mapM]
  split
  · rename_i a ha
    exact holds_number.2 (hop a (hv a ha))
  · exact hv

theorem holds_settle (hv : v.Holds P) : v.settle.Holds P := by
  rw [settle]
  split
  · rename_i a ha
    exact holds_number.2 (hv a ha)
  · exact hv

variable [Scalar α]

theorem holds_neg (hneg : ∀ a, P a → P (-a)) (hv : v.Holds P) : (-v).Holds P := holds_map hneg hv

omit [Scalar α] in
theorem best_mem (key : Value α → α) (better : α → α → Bool) (v : Value α) (vs : List (Value α)) :
    best key better v vs ∈ v :: vs := by
  induction vs generalizing v with
  | nil => exact List.mem_cons_self
  | cons w vs ih =>
    rw [best]
    rcases List.mem_cons.1 (ih (if better (key w) (key v) then w else v)) with h | h
    · rw [h]
      split
      · exact List.mem_cons_of_mem v List.mem_cons_self
      · exact List.mem_cons_self
    · exact List.mem_cons_of_mem v (List.mem_cons_of_mem w h)

/-- The least and the greatest of some values is one of them, settled. -/
theorem exists_mem_of_chosen {vs : List (Value α)} (h : minOf vs = some w ∨ maxOf vs = some w) :
    ∃ v ∈ vs, w = v.settle := by
  cases vs with
  | nil => rcases h with h | h <;> cases h
  | cons v vs =>
    rcases h with h | h
    · exact ⟨_, best_mem _ _ v vs, (Option.some.inj h).symm⟩
    · exact ⟨_, best_mem _ _ v vs, (Option.some.inj h).symm⟩

theorem holds_chosen {vs : List (Value α)} (hvs : ∀ v ∈ vs, v.Holds P)
    (h : minOf vs = some w ∨ maxOf vs = some w) : w.Holds P := by
  obtain ⟨v, hv, rfl⟩ := exists_mem_of_chosen h
  exact holds_settle (hvs v hv)

theorem holds_both (hu : u.Holds P) (hv : v.Holds P) : (LogicOp.both u v).Holds P := by
  have huv : ∀ w ∈ [u, v], w.Holds P := by simp [hu, hv]
  exact holds_chosen huv (.inl rfl)

theorem holds_either (hu : u.Holds P) (hv : v.Holds P) : (LogicOp.either u v).Holds P := by
  have huv : ∀ w ∈ [u, v], w.Holds P := by simp [hu, hv]
  exact holds_chosen huv (.inr rfl)

/-! ## Sentinels of aggregations -/

/-- A value is a number or one of some operands. -/
def MadeFrom (vs : List (Value α)) (w : Value α) : Prop := (∃ x, w = number x) ∨ w ∈ vs

variable {vs : List (Value α)}

omit [Scalar α] in
theorem binary_cases (op : α → α → α) (u v : Value α) :
    (∃ x, binary op u v = number x) ∨ binary op u v = u ∨ binary op u v = v := by
  rcases u with a | ⟨_ | _, _ | k⟩ <;> rcases v with b | ⟨_ | _, _ | l⟩ <;>
    first
      | exact .inl ⟨_, rfl⟩
      | exact .inr (.inl rfl)
      | exact .inr (.inr rfl)

omit [Scalar α] in
theorem MadeFrom.binary {op : α → α → α} (hu : MadeFrom vs u) (hv : MadeFrom vs v) :
    MadeFrom vs (binary op u v) := by
  rcases binary_cases op u v with h | h | h
  · exact .inl h
  · rw [h]
    exact hu
  · rw [h]
    exact hv

theorem madeFrom_foldl_mul {us : List (Value α)} (hus : ∀ u ∈ us, MadeFrom vs u) {acc : Value α}
    (hacc : MadeFrom vs acc) : MadeFrom vs (us.foldl (· * ·) acc) := by
  induction us generalizing acc with
  | nil => exact hacc
  | cons u us ih =>
    rw [List.forall_mem_cons] at hus
    exact ih hus.2 (hacc.binary hus.1)

theorem madeFrom_productOf {us : List (Value α)} (hus : ∀ u ∈ us, MadeFrom vs u) :
    MadeFrom vs (AggregateOp.productOf us) :=
  madeFrom_foldl_mul hus (.inl ⟨1, rfl⟩)

theorem madeFrom_sumOf : MadeFrom vs (AggregateOp.sumOf vs) := by
  refine MadeFrom.binary (.inl ⟨1, rfl⟩) (madeFrom_productOf ?_)
  intro u hu
  obtain ⟨v, hv, rfl⟩ := List.mem_map.1 hu
  exact MadeFrom.binary (.inl ⟨1, rfl⟩) (.inr hv)

theorem madeFrom_apply {op : AggregateOp} (h : op.apply vs = .ok w) : MadeFrom vs w :=
  AggregateOp.apply_induction (motive := fun _ => MadeFrom vs)
    (madeFrom_productOf fun _ hu => .inr hu) madeFrom_sumOf h

theorem madeFrom_gammaMean {gamma : Value α} (h : gammaMean gamma vs = .ok w) :
    MadeFrom (gamma :: vs) w := by
  rcases gammaMean_eq_ok.1 h with ⟨-, rfl⟩ | ⟨g, sum, product, -, -, hsum, hproduct, rfl⟩
  · exact .inr List.mem_cons_self
  · have hleft : MadeFrom vs (sum.pow (number g)) :=
      (madeFrom_apply hsum).binary (.inl ⟨g, rfl⟩)
    have hright : MadeFrom vs (product.pow (number (1 - g))) :=
      (madeFrom_apply hproduct).binary (.inl ⟨1 - g, rfl⟩)
    exact (hleft.binary hright).imp_right (List.mem_cons_of_mem gamma)

end Value

end FuzzyInference
